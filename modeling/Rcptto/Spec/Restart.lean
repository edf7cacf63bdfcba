import Rcptto.Native.Startup
import Rcptto.Spec.Quarantine

/-!
# Reputation across a restart

At start-up `Restore` runs before the agents are registered, and it skips states of
identities it does not know. So only the local identity gets its state back; every agent
starts over as a fresh identity, whatever the store holds for it.

## Key results

- `Record.restoreAll_of_mem`: what `Restore` writes when the ids are distinct
- `entry_startUp_direct`, `entry_startUp_agent`: each identity after start-up
- `startUp_retains_iff`: when every configured identity gets its state back
-/

namespace Rcptto.Native

variable {F : Type} [Add F] [Sub F] [Mul F] [OfScientific F] [LinearOrder F]

/-- What `Snapshot` would write for the identity `id`. -/
def Manager.entry (m : Manager F) (id : String) : Option (EgressState F) :=
  (m.get? id).map (·.toEgressState)

/-! ## Restore -/

namespace Record

variable {r : Record F} {states : List (EgressState F)} {st : EgressState F}

omit [Add F] [Sub F] [Mul F] [OfScientific F] [LinearOrder F]

/-- With distinct ids, `Restore` writes the one state of an identity to its record. -/
theorem restoreAll_of_mem (hnodup : (states.map (·.id)).Nodup) (hst : st ∈ states)
    (hid : st.id = r.id) : r.restoreAll states = r.restore st := by
  induction states generalizing r with
  | nil => exact absurd hst (List.not_mem_nil)
  | cons st' states ih =>
    rw [List.map_cons, List.nodup_cons] at hnodup
    rw [restoreAll_cons]
    rcases List.mem_cons.mp hst with rfl | hmem
    · -- no later state has the same id
      rw [if_pos hid]
      apply restoreAll_of_notMem
      rw [id_restore, ← hid]
      exact hnodup.1
    · have hne : st'.id ≠ r.id := by
        intro h
        apply hnodup.1
        rw [h, ← hid]
        exact List.mem_map_of_mem hmem
      rw [if_neg hne]
      exact ih hnodup.2 hmem hid

/-- A restored record without health scores of its own shows the state it was given, except
    for an unset last reset. -/
theorem toEgressState_restore (hid : st.id = r.id) (hhealth : ∀ dest, r.health dest = none) :
    (r.restore st).toEgressState =
      { st with lastReset := if st.lastReset ≠ 0 then st.lastReset else r.lastReset } := by
  have hscores : (r.restore st).toEgressState.health = st.health := by
    funext dest
    simp only [toEgressState, restore, hhealth]
    cases st.health dest <;> rfl
  apply EgressState.ext
  case health => exact hscores
  case id => exact hid.symm
  case state => exact State.toString_ofString st.state
  all_goals rfl

end Record

/-! ## Registration of agents -/

namespace Manager

variable {m : Manager F} {id : String}

omit [Add F] [Sub F] [Mul F] [OfScientific F] [LinearOrder F] in
/-- Reachability is not persisted. -/
theorem entry_setOnline (m : Manager F) (id' : String) (online : Bool) (id : String) :
    (m.setOnline id' online).entry id = m.entry id := by
  unfold entry
  rw [get?, pool_setOnline]
  cases hr : m.get? id with
  | none =>
    rw [OrderedMap.get?_modify_eq_none.mpr hr]
  | some r =>
    rw [OrderedMap.get?_modify hr, Option.map_some, Option.map_some]
    split <;> rfl

omit [Add F] [Sub F] [Mul F] [OfScientific F] [LinearOrder F] in
/-- `AddIdentity` leaves what is known of every identity alone, and a new one starts over. -/
theorem entry_addIdentity (m : Manager F) (now : Int) (spec : Spec) (id : String) :
    (m.addIdentity now spec).entry id = (m.entry id).or
      (if spec.id = id then some (Record.fresh spec now).toEgressState else none) := by
  unfold entry
  cases hspec : m.get? spec.id with
  | some r' =>
    rw [get?, pool_addIdentity_of_some hspec]
    cases hr : m.get? id with
    | none =>
      have hne : spec.id ≠ id := by
        rintro rfl
        rw [hspec] at hr
        cases hr
      rw [OrderedMap.get?_modify_eq_none.mpr hr, if_neg hne]
      rfl
    | some r =>
      rw [OrderedMap.get?_modify hr, Option.map_some, Option.map_some, Option.some_or]
      split
      · next hid =>
        congr 1
        -- only the spec is replaced, of which the id is all that is saved
        exact EgressState.ext hid rfl rfl rfl rfl rfl rfl rfl rfl
      · rfl
  | none =>
    rw [get?, pool_addIdentity_of_none hspec]
    by_cases hid : spec.id = id
    · subst hid
      rw [hspec, if_pos rfl]
      exact congrArg _ (OrderedMap.get?_push_self (m := m.pool) (v := .fresh spec now))
    · have hne : id ≠ (Record.fresh spec now : Record F).id := Ne.symm hid
      rw [OrderedMap.get?_push_of_ne hne, if_neg hid, Option.or_none]

omit [Add F] [Sub F] [Mul F] [OfScientific F] [LinearOrder F] in
/-- The agents that were not known start over, at the time of their first registration. -/
theorem entry_registerAgents (agents : List (String × Int)) (id : String) :
    (agents.foldl registerAgent m).entry id = (m.entry id).or
      ((agents.lookup id).map fun now => (Record.fresh (agentSpec id) now).toEgressState) := by
  induction agents generalizing m with
  | nil => simp
  | cons agent agents ih =>
    obtain ⟨id', now⟩ := agent
    rw [List.foldl_cons, ih, registerAgent, entry_setOnline, entry_addIdentity, List.lookup_cons]
    -- only the first registration of an agent counts
    by_cases hid : id' = id
    · subst hid
      simp [agentSpec]
    · have hbeq : (id == id') = false := by simpa using Ne.symm hid
      simp [agentSpec, hid, hbeq]

end Manager

/-! ## Start-up -/

variable {helo mailFrom : String} {start : Int} {states : List (EgressState F)}
  {agents : List (String × Int)} {st : EgressState F}

omit [Add F] [Sub F] [Mul F] in
/-- `New` knows the local identity and no other. -/
private theorem get?_new_server (helo mailFrom : String) (start : Int) (id : String) :
    (Manager.new (serverConfig (F := F) helo mailFrom) start).get? id =
      if id = "direct" then some (.fresh (directSpec helo mailFrom) start) else none := by
  rw [Manager.get?_new]
  by_cases hid : id = "direct"
  · subst hid
    simp [serverConfig, directSpec]
  · simp [serverConfig, directSpec, hid, Ne.symm hid]

omit [Add F] [Sub F] [Mul F] in
/-- The local identity gets its state back. -/
theorem entry_startUp_direct (hnodup : (states.map (·.id)).Nodup) (hst : st ∈ states)
    (hid : st.id = "direct") : (startUp helo mailFrom start states agents).entry st.id =
      some { st with lastReset := if st.lastReset ≠ 0 then st.lastReset else start } := by
  have hnew := get?_new_server (F := F) helo mailFrom start st.id
  rw [if_pos hid] at hnew
  have hlen : states.length > 0 := List.length_pos_of_mem hst
  -- the configured identity is the one that the row is for
  have hdirect : st.id = (Record.fresh (directSpec helo mailFrom) start : Record F).id := hid
  unfold startUp
  simp only [hlen, if_true]
  rw [Manager.entry_registerAgents, Manager.entry, Manager.get?_restore hnew,
    Record.restoreAll_of_mem hnodup hst hdirect, Option.map_some,
    Record.toEgressState_restore hdirect fun _ => rfl, Option.some_or]
  rfl

omit [Add F] [Sub F] [Mul F] in
/-- An agent starts over, whatever the store holds for it. -/
theorem entry_startUp_agent {id : String} (hid : id ≠ "direct") :
    (startUp helo mailFrom start states agents).entry id =
      (agents.lookup id).map fun now => (Record.fresh (agentSpec id) now).toEgressState := by
  have hnew := get?_new_server (F := F) helo mailFrom start id
  rw [if_neg hid] at hnew
  unfold startUp
  dsimp only
  -- a row for an identity that is not configured is ignored
  have hnone : Manager.entry (if states.length > 0 then
      (Manager.new (serverConfig helo mailFrom) start).restore states
      else Manager.new (serverConfig helo mailFrom) start) id = none := by
    unfold Manager.entry
    split
    · rw [Manager.get?_restore_none hnew, Option.map_none]
    · rw [hnew, Option.map_none]
  rw [Manager.entry_registerAgents, hnone, Option.none_or]

/-- The identity is configured: it is the local one or that of an agent. -/
def Configured (agents : List (String × Int)) (id : String) : Prop :=
  id = "direct" ∨ id ∈ agents.map (·.1)

/-- The identity of a persisted entry has exactly the reputation that the entry records; in
    particular, one that is disabled or in quarantine is not selected. -/
structure Retains (m : Manager F) (st : EgressState F) : Prop where
  entry : ∃ r, m.get? st.id = some r ∧ r.toEgressState = st
  withdrawn : ∀ now task m' b, m.binding now task = some (m', .ok b) →
    st.state = "disabled" ∨ st.state = "quarantined" ∧ now ≤ st.quarantinedUntil → b.id ≠ st.id

/-- An identity with the state of an entry is withdrawn as long as the entry says. -/
theorem retains_iff {m : Manager F} : Retains m st ↔ m.entry st.id = some st := by
  rw [Manager.entry, Option.map_eq_some_iff]
  refine ⟨Retains.entry, fun h => ⟨h, ?_⟩⟩
  intro now task m' b hbind hheld hid
  obtain ⟨r, hr, hst⟩ := h
  have hstate : r.state = .ofString st.state := by
    rw [← hst]
    exact r.state.ofString_toString.symm
  -- the entry holds the identity back up to `now`
  have hheld : HeldUntil now r := by
    rcases hheld with hd | ⟨hq, hnow⟩
    · rw [hd] at hstate
      exact ⟨.inl hstate, fun hs => absurd (hstate.symm.trans hs) (by decide)⟩
    · rw [hq] at hstate
      refine ⟨.inr hstate, fun _ => ?_⟩
      rw [← hst] at hnow
      exact hnow
  have hstep : m.Step ⟨m, now, .binding task, some (.ok b)⟩ m' := by
    refine ⟨rfl, ?_⟩
    rw [Manager.exec, hbind]
    rfl
  have hret := hheld.not_returns hstep hr (Int.le_refl now)
  exact of_decide_eq_false hret hid

/-- A restart keeps the reputation of every configured identity exactly if each entry of an
    agent says no more than that of an identity that has just been added, and the entry of
    the local identity has a last reset. -/
theorem startUp_retains_iff (helo mailFrom : String) (start : Int) (agents : List (String × Int))
    (hnodup : (states.map (·.id)).Nodup) :
    (∀ st ∈ states, Configured agents st.id →
      Retains (startUp helo mailFrom start states agents) st) ↔
    ∀ st ∈ states,
      (st.id = "direct" → st.lastReset ≠ 0 ∨ start = 0) ∧
      (st.id ≠ "direct" → ∀ now, agents.lookup st.id = some now →
        st = (Record.fresh (agentSpec st.id) now).toEgressState) := by
  refine forall₂_congr fun st hst => ?_
  rw [retains_iff]
  by_cases hid : st.id = "direct"
  · -- the local identity: everything comes back but an unset last reset
    rw [entry_startUp_direct hnodup hst hid, Option.some.injEq]
    constructor
    · intro h
      have hlast := congrArg EgressState.lastReset (h (.inl hid))
      refine ⟨fun _ => ?_, fun hne => absurd hid hne⟩
      by_cases h0 : st.lastReset = 0
      · right
        simpa [h0] using hlast
      · exact .inl h0
    · intro h _
      rcases h.1 hid with h0 | h0
      · rw [if_pos h0]
      · by_cases hz : st.lastReset = 0
        · rw [if_neg (not_not.mpr hz), h0, ← hz]
        · rw [if_pos hz]
  · -- an agent: it starts over at its first registration
    rw [entry_startUp_agent hid]
    have hconf : Configured agents st.id ↔ (agents.lookup st.id).isSome := by
      rw [List.lookup_isSome_iff, Configured, or_iff_right hid, List.mem_map]
      simp only [beq_iff_eq]
      exact exists_congr fun _ => and_congr_right fun _ => eq_comm
    rw [hconf]
    cases agents.lookup st.id with
    | none => simp [hid]
    | some now =>
      simp only [hid, Option.isSome_some, true_implies, ne_eq, not_false_eq_true, false_implies,
        true_and, Option.map_some, Option.some.injEq, forall_eq']
      exact eq_comm

/-- A persisted entry in the state `state`, held there until the time 1000. -/
def heldState (id state : String) : EgressState ℚ where
  id := id
  state := state
  warmupStage := 2
  usedToday := 40
  lastReset := 3
  blockStreak := 5
  quarantinedUntil := 1000
  quarantineReason := "listed on DNSBL"
  health := fun _ => none

/-- A server that has an entry of the local identity only. -/
theorem startUp_retains_iff_direct :
    let states := [heldState "direct" "quarantined"]
    (states.map (·.id)).Nodup ∧ ∀ st ∈ states, Configured [("eu-1", 8)] st.id →
      Retains (startUp "mx" "probe@mx" 7 states [("eu-1", 8)]) st := by
  refine ⟨by decide, (startUp_retains_iff "mx" "probe@mx" 7 [("eu-1", 8)] (by decide)).mpr ?_⟩
  intro st hst
  rw [List.mem_singleton] at hst
  subst hst
  exact ⟨fun _ => .inl (by decide), fun h => absurd rfl h⟩

/-- The local identity is disabled and stays so. The agent is in quarantine until the time
    1000, but its entry is skipped: it comes back warming, and once a health check has
    reached it, a `Binding` at the time 20 returns it. -/
theorem startUp_forgets_agent :
    let states := [heldState "direct" "disabled", heldState "eu-1" "quarantined"]
    let m := startUp "mx" "probe@mx" 7 states [("eu-1", 8)]
    (states.map (·.id)).Nodup ∧
    (m.entry "direct").map (·.state) = some "disabled" ∧
    (m.entry "eu-1").map (·.state) = some "warming" ∧
    ((m.setOnline "eu-1" true).binding 20 gmailTask).map Prod.snd =
      some (.ok { id := "eu-1", helo := "", mailFrom := "", transport := {} }) := by
  decide +kernel

end Rcptto.Native
