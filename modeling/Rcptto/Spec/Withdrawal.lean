import Rcptto.Spec.Quarantine

/-!
# What is said about a withdrawal

`quarantineReason` is to say why an identity is withdrawn, and `quarantinedUntil` until when it is
quarantined. The operations that withdraw an identity write them, but those that end a withdrawal
do not clear them: an expired quarantine leaves both behind, and `Enable` and `Disable` leave the
end of the quarantine. A block streak gives no reason of its own and shows the one it finds.

## Key results

- `Event.effect_truthful_iff`: an operation keeps what a record says true if and only if it leaves
  nothing behind
- `truthful_iff`: the same over whole executions
- `left_behind`: the ways in which something is left behind
-/

namespace Rcptto.Native

variable {F : Type} [Add F] [Sub F] [Mul F] [OfScientific F] [LinearOrder F]

/-- A reason is given only for an identity that is withdrawn, and the end of a quarantine only for
    one that is quarantined. -/
def Record.Consistent (r : Record F) : Prop :=
  (r.quarantineReason ≠ "" → r.Withdrawn) ∧ (r.quarantinedUntil ≠ 0 → r.state = .quarantined)

/-- And the reason is the one given by the operation that has caused the withdrawal. -/
def Record.Truthful (cause : Option String) (r : Record F) : Prop :=
  r.Consistent ∧ (r.Withdrawn → cause = some r.quarantineReason)

instance (cause : Option String) (r : Record F) : Decidable (r.Truthful cause) :=
  inferInstanceAs (Decidable ((_ ∧ _) ∧ _))

/-- The reason given by the operation that has caused the withdrawal of an identity with the record
    `r`, after the event; before it, that was `cause`. A block streak gives no reason, and it
    causes a quarantine only if there is none yet. A restored withdrawal has the reason it was
    stored with. -/
def Event.cause (e : Event F) (r : Record F) (cause : Option String) : Option String :=
  match e.op with
  | .binding _ =>
    if r.state = .quarantined ∧ e.now > r.quarantinedUntil then none else cause
  | .emit _ => if (e.effect r).state = r.state then cause else some ""
  | .enable id => if id = r.id then none else cause
  | .disable id reason => if id = r.id then some reason else cause
  | .quarantine id reason => if id = r.id then some reason else cause
  | .restore states =>
    if r.id ∈ states.map (·.id) then some (e.effect r).quarantineReason else cause
  | _ => cause

/-- The reason given by the operation that has caused the withdrawal of `i`, after these events. -/
def causeOf (i : String) (es : List (Event F)) : Option String :=
  es.foldl (fun cause e =>
    match e.pre.get? i with
    | none => none
    | some r => e.cause r cause) none

/-- The row of an identity that counts for `Restore`, which is the last one of several. -/
def lastRow (id : String) (states : List (EgressState F)) : Option (EgressState F) :=
  (states.filter (·.id = id)).getLast?

/-- The row has a reason without a withdrawal, or the end of a quarantine without one. -/
def EgressState.Inconsistent (st : EgressState F) : Prop :=
  (st.quarantineReason ≠ "" ∧ st.state ∉ ["disabled", "quarantined"]) ∨
    (st.quarantinedUntil ≠ 0 ∧ st.state ≠ "quarantined")

/-- The event leaves something behind that was said about the withdrawal of an identity with the
    record `r`: it ends a quarantine; or the blocks that it reports bring the streak of a disabled
    identity to the threshold, and it leaves the reason; or it restores a row that is not
    consistent. -/
def Event.LeavesBehind (e : Event F) (r : Record F) : Prop :=
  match e.op with
  | .binding _ => r.state = .quarantined ∧ e.now > r.quarantinedUntil ∧
      (r.quarantinedUntil ≠ 0 ∨ r.quarantineReason ≠ "")
  | .emit signals => r.state = .disabled ∧ r.quarantineReason ≠ "" ∧
      Trips e.pre.quarantineThreshold r.blockStreak r.id signals
  | .enable id => id = r.id ∧ r.quarantinedUntil ≠ 0
  | .disable id _ => id = r.id ∧ r.quarantinedUntil ≠ 0
  | .restore states => ∃ st, lastRow r.id states = some st ∧ st.Inconsistent
  | _ => False

variable {e : Event F} {i : String} {r : Record F} {m m' : Manager F} {cause : Option String}

/-! ## One step -/

namespace Record

omit [Add F] [Sub F] [Mul F] [OfScientific F] [LinearOrder F]

/-- A further row counts only if none of those behind it is of the same identity. -/
theorem lastRow_cons (id : String) (st : EgressState F) (states : List (EgressState F)) :
    lastRow id (st :: states) =
      (lastRow id states).or (if st.id = id then some st else none) := by
  unfold lastRow
  by_cases hid : st.id = id
  · rw [List.filter_cons_of_pos (by simpa using hid), List.getLast?_cons, if_pos hid]
    cases (states.filter (·.id = id)).getLast? <;> rfl
  · rw [List.filter_cons_of_neg (by simpa using hid), if_neg hid, Option.or_none]

/-- There is such a row if and only if there is one of the identity. -/
theorem lastRow_eq_none_iff {id : String} {states : List (EgressState F)} :
    lastRow id states = none ↔ id ∉ states.map (·.id) := by
  rw [lastRow, List.getLast?_eq_none_iff, List.filter_eq_nil_iff]
  simp

/-- What `Restore` says about a withdrawal is what the last row of the identity does. -/
theorem restoreAll_of_lastRow {states : List (EgressState F)} {st : EgressState F}
    (h : lastRow r.id states = some st) :
    (r.restoreAll states).state = .ofString st.state ∧
      (r.restoreAll states).quarantinedUntil = st.quarantinedUntil ∧
      (r.restoreAll states).quarantineReason = st.quarantineReason := by
  induction states generalizing r with
  | nil => cases h
  | cons st' states ih =>
    rw [lastRow_cons] at h
    rw [restoreAll_cons]
    cases hrest : lastRow r.id states with
    | some st'' =>
      -- this row is overwritten later
      rw [hrest, Option.some_or, Option.some.injEq] at h
      refine ih ?_
      rw [← h, ← hrest]
      split <;> rfl
    | none =>
      rw [hrest, Option.none_or] at h
      have hlast := lastRow_eq_none_iff.mp hrest
      split at h
      · next hid =>
        cases h
        rw [if_pos hid, restoreAll_of_notMem (r := r.restore st) hlast]
        exact ⟨rfl, rfl, rfl⟩
      · cases h

/-- A stored state that is one of the named ones has its name. -/
theorem ofString_eq_iff {text : String} {s : State} :
    State.ofString text = s ↔ text = s.toString :=
  ⟨fun h => by rw [← h, State.toString_ofString], fun h => by rw [h, State.ofString_toString]⟩

/-- A record is restored consistently if the row is consistent. -/
theorem consistent_restoreAll_iff {states : List (EgressState F)} {st : EgressState F}
    (h : lastRow r.id states = some st) :
    (r.restoreAll states).Consistent ↔ ¬ st.Inconsistent := by
  obtain ⟨hs, hu, hq⟩ := restoreAll_of_lastRow h
  simp only [Consistent, Withdrawn, hs, hu, hq, ofString_eq_iff, State.toString,
    EgressState.Inconsistent, List.mem_cons, List.not_mem_nil, or_false]
  tauto

/-- A new record says nothing. -/
theorem truthful_fresh (spec : Spec) (now : Int) :
    (.fresh spec now : Record F).Truthful cause := by
  have hnot : ¬ (.fresh spec now : Record F).Withdrawn := by
    simp only [Withdrawn, fresh]
    split <;> simp
  exact ⟨⟨fun h => absurd rfl h, fun h => absurd rfl h⟩, fun h => absurd h hnot⟩

/-- Only the state and what is said about the withdrawal matter. -/
theorem Truthful.of_frame {r' : Record F} (h : r.Truthful cause) (hs : r'.state = r.state)
    (hu : r'.quarantinedUntil = r.quarantinedUntil)
    (hq : r'.quarantineReason = r.quarantineReason) : r'.Truthful cause := by
  unfold Truthful Consistent Withdrawn at *
  rwa [hs, hu, hq]

/-- Nothing is said about an identity that is not withdrawn. -/
theorem Truthful.of_not_withdrawn (h : r.Truthful cause) (hnot : ¬ r.Withdrawn) :
    r.quarantineReason = "" ∧ r.quarantinedUntil = 0 := by
  constructor
  · by_contra hq
    exact hnot (h.1.1 hq)
  · by_contra hu
    exact hnot (.inr (h.1.2 hu))

/-- A record in service that says nothing of a withdrawal is truthful. -/
theorem truthful_of_clear (hq : r.quarantineReason = "") (hu : r.quarantinedUntil = 0)
    (hnot : ¬ r.Withdrawn) : r.Truthful cause :=
  ⟨⟨fun h => absurd hq h, fun h => absurd hu h⟩, fun h => absurd h hnot⟩

/-- Reconciliation does not withdraw an identity. -/
theorem not_withdrawn_reconcile {stages : Nat} {now : Int} (h : ¬ (r.expire now).Withdrawn) :
    ¬ (r.reconcile stages now).Withdrawn := by
  refine reconcile_induction (P := fun r => ¬ r.Withdrawn) h fun r hr => ?_
  obtain ⟨hd, hq⟩ := not_or.mp hr
  exact not_or.mpr ⟨dailyReset_state_ne (s := .disabled) (by decide) (by decide) hd,
    dailyReset_state_ne (s := .quarantined) (by decide) (by decide) hq⟩

end Record

namespace Event

omit [LinearOrder F]

theorem effect_binding_quarantineReason {task : Task} (hop : e.op = .binding task)
    (r : Record F) : (e.effect r).quarantineReason = r.quarantineReason := by
  rw [effect_binding hop]
  split <;> simp [Record.charge]

/-- A `Binding` leaves something behind if it finds a quarantine expired. -/
theorem effect_binding_truthful_iff {task : Task} (hop : e.op = .binding task)
    (h : r.Truthful cause) :
    (e.effect r).Truthful (e.cause r cause) ↔ ¬ e.LeavesBehind r := by
  obtain ⟨hs, -, -, -, hu⟩ := effect_binding_frame hop r
  have hq := effect_binding_quarantineReason hop r
  simp only [Event.cause, LeavesBehind, hop]
  by_cases hexp : r.state = .quarantined ∧ e.now > r.quarantinedUntil
  · -- the identity is not withdrawn any more, so nothing should be said
    have hnot : ¬ (e.effect r).Withdrawn := by
      unfold Record.Withdrawn
      rw [hs]
      refine Record.not_withdrawn_reconcile ?_
      rw [Record.expire, if_pos hexp]
      simp [Record.Withdrawn]
    rw [if_pos hexp]
    constructor
    · rintro htrue ⟨-, -, hleft⟩
      obtain ⟨hq', hu'⟩ := htrue.of_not_withdrawn hnot
      rcases hleft with hleft | hleft
      · exact hleft (hu.symm.trans hu')
      · exact hleft (hq.symm.trans hq')
    · intro hleft
      have hclear : ¬ (r.quarantinedUntil ≠ 0 ∨ r.quarantineReason ≠ "") :=
        fun hleft' => hleft ⟨hexp.1, hexp.2, hleft'⟩
      push Not at hclear
      exact Record.truthful_of_clear (hq.trans hclear.2) (hu.trans hclear.1) hnot
  · rw [if_neg hexp]
    refine iff_of_true ?_ fun hleft => hexp ⟨hleft.1, hleft.2.1⟩
    by_cases hw : r.Withdrawn
    · have hkeep : (r.reconcile e.pre.warmupStages.length e.now).state = r.state := by
        apply Record.reconcile_state_of_ne
        · rcases hw with hw | hw <;> rw [hw] <;> decide
        · intro hquarantined
          by_contra hlt
          exact hexp ⟨hquarantined, by omega⟩
      exact h.of_frame (hs.trans hkeep) hu hq
    · obtain ⟨hq', hu'⟩ := h.of_not_withdrawn hw
      refine Record.truthful_of_clear (hq.trans hq') (hu.trans hu') ?_
      unfold Record.Withdrawn
      rw [hs]
      refine Record.not_withdrawn_reconcile ?_
      rwa [Record.expire, if_neg hexp]

/-- An `Emit` leaves something behind if it quarantines a disabled identity. -/
theorem effect_emit_truthful_iff {signals : List Signal} (hop : e.op = .emit signals)
    (h : r.Truthful cause) :
    (e.effect r).Truthful (e.cause r cause) ↔ ¬ e.LeavesBehind r := by
  have heffect : e.effect r = r.applySignals e.pre.toTuning e.now signals := by
    simp only [effect, hop]
  have hq : (e.effect r).quarantineReason = r.quarantineReason := by
    rw [heffect]
    exact Record.applySignals_proj Record.quarantineReason (by simp) r signals
  obtain ⟨htrip, hkeep⟩ := r.applySignals_state e.pre.toTuning e.now signals
  rw [← heffect] at htrip hkeep
  simp only [Event.cause, LeavesBehind, hop]
  by_cases ht : Trips e.pre.quarantineThreshold r.blockStreak r.id signals
  · obtain ⟨hs, -⟩ := htrip ht
    have hconsistent : (e.effect r).Consistent := ⟨fun _ => .inr hs, fun _ => hs⟩
    by_cases hquarantined : r.state = .quarantined
    · -- a quarantine goes on, with the reason it had
      rw [if_pos (hs.trans hquarantined.symm), hquarantined]
      refine iff_of_true ⟨hconsistent, fun _ => ?_⟩ fun hleft => by cases hleft.1
      rw [hq]
      exact h.2 (.inr hquarantined)
    · rw [if_neg fun hsame => hquarantined (hsame.symm.trans hs)]
      constructor
      · rintro htrue ⟨-, hreason, -⟩
        have hcause := htrue.2 (.inr hs)
        rw [hq, Option.some.injEq] at hcause
        exact hreason hcause.symm
      · intro hleft
        -- a reason would be that of a disabled identity
        have hreason : r.quarantineReason = "" := by
          by_contra hreason
          rcases h.1.1 hreason with hd | hq'
          · exact hleft ⟨hd, hreason, ht⟩
          · exact hquarantined hq'
        exact ⟨hconsistent, fun _ => by rw [hq, hreason]⟩
  · obtain ⟨hs, hu⟩ := hkeep ht
    rw [if_pos hs]
    exact iff_of_true (h.of_frame hs hu hq) fun hleft => ht hleft.2.2

/-- A `Restore` leaves something behind if the last row of the identity is inconsistent. -/
theorem effect_restore_truthful_iff {states : List (EgressState F)} (hop : e.op = .restore states)
    (h : r.Truthful cause) :
    (e.effect r).Truthful (e.cause r cause) ↔ ¬ e.LeavesBehind r := by
  have heffect : e.effect r = r.restoreAll states := by simp only [effect, hop]
  simp only [Event.cause, LeavesBehind, hop, heffect]
  cases hrow : lastRow r.id states with
  | some st =>
    have hid : r.id ∈ states.map (·.id) := by
      by_contra hnot
      rw [Record.lastRow_eq_none_iff.mpr hnot] at hrow
      cases hrow
    have hconsistent := Record.consistent_restoreAll_iff hrow
    simp only [if_pos hid, Option.some.injEq, exists_eq_left', ← hconsistent]
    exact ⟨fun htrue => htrue.1, fun hconsistent => ⟨hconsistent, fun _ => rfl⟩⟩
  | none =>
    have hid := Record.lastRow_eq_none_iff.mp hrow
    rw [if_neg hid, Record.restoreAll_of_notMem hid]
    exact iff_of_true h (by simp)

/-- An operation keeps what a record says true if and only if it leaves nothing behind. -/
theorem effect_truthful_iff (h : r.Truthful cause) :
    (e.effect r).Truthful (e.cause r cause) ↔ ¬ e.LeavesBehind r := by
  cases hop : e.op with
  | binding task => exact effect_binding_truthful_iff hop h
  | emit signals => exact effect_emit_truthful_iff hop h
  | enable id =>
    simp only [Event.cause, LeavesBehind, effect, hop]
    by_cases hid : id = r.id
    · have hnot : ¬ r.enable.Withdrawn := by simp [Record.Withdrawn, Record.enable]
      simp only [hid, if_true, true_and, not_not]
      exact ⟨fun htrue => (htrue.of_not_withdrawn hnot).2,
        fun hclear => Record.truthful_of_clear rfl hclear hnot⟩
    · simp only [hid, if_false, false_and, not_false_eq_true, iff_true]
      exact h
  | disable id reason =>
    simp only [Event.cause, LeavesBehind, effect, hop]
    by_cases hid : id = r.id
    · simp only [hid, if_true, true_and, not_not]
      constructor
      · intro htrue
        -- the end of an old quarantine would still be there
        by_contra hleft
        cases htrue.1.2 hleft
      · exact fun hclear => ⟨⟨fun _ => .inl rfl, fun hleft => absurd hclear hleft⟩, fun _ => rfl⟩
    · simp only [hid, if_false, false_and, not_false_eq_true, iff_true]
      exact h
  | quarantine id reason =>
    simp only [Event.cause, LeavesBehind, effect, hop, not_false_eq_true, iff_true]
    by_cases hid : id = r.id
    · simp only [hid, if_true]
      exact ⟨⟨fun _ => .inr rfl, fun _ => rfl⟩, fun _ => rfl⟩
    · simp only [hid, if_false]
      exact h
  | restore states => exact effect_restore_truthful_iff hop h
  | setThresholds quarantine circuit =>
    simp only [Event.cause, LeavesBehind, effect, hop, not_false_eq_true, iff_true]
    exact h
  | setOnline id online =>
    simp only [Event.cause, LeavesBehind, effect, hop, not_false_eq_true, iff_true]
    split
    · exact h.of_frame rfl rfl rfl
    · exact h
  | addIdentity spec =>
    simp only [Event.cause, LeavesBehind, effect, hop, not_false_eq_true, iff_true]
    split
    · exact h.of_frame rfl rfl rfl
    · exact h

end Event

/-! ## Executions -/

/-- What the record of `i` says is true after these events. -/
def TruthfulAfter (i : String) (es : List (Event F)) (m : Manager F) : Prop :=
  ∀ r, m.get? i = some r → r.Truthful (causeOf i es)

omit [LinearOrder F] in
theorem causeOf_snoc {es : List (Event F)} (hpre : e.pre.get? i = some r) :
    causeOf i (es ++ [e]) = e.cause r (causeOf i es) := by
  simp [causeOf, List.foldl_append, hpre]

/-- As long as nothing is left behind, what a record says is true. -/
theorem Manager.Runs.truthful {cfg : Config F} {start : Int} {es : List (Event F)}
    (h : (Manager.new cfg start).Runs es m)
    (hes : ∀ e ∈ es, ∀ r, e.pre.get? i = some r → ¬ e.LeavesBehind r) : TruthfulAfter i es m := by
  revert hes
  refine h.history (I := fun es m => (∀ e ∈ es, ∀ r, e.pre.get? i = some r → ¬ e.LeavesBehind r) →
    TruthfulAfter i es m) ?_ ?_
  · intro _ r hr
    obtain ⟨spec, -, -, rfl⟩ := exists_of_get?_new hr
    exact Record.truthful_fresh spec start
  · intro es m e m' _ ih hstep hes r' hr'
    have htrue := ih fun e he => hes e (List.mem_append_left _ he)
    -- the last event adds the identity, or finds its record
    cases hr : m.get? i with
    | none =>
      obtain ⟨spec, -, -, rfl⟩ := hstep.fresh_of_get?_none hr hr'
      exact Record.truthful_fresh spec e.now
    | some r =>
      have hpre : e.pre.get? i = some r := by rw [hstep.1, hr]
      rw [hstep.get? hr, Option.some.injEq] at hr'
      rw [← hr', causeOf_snoc hpre]
      exact (Event.effect_truthful_iff (htrue r hr)).mpr (hes e (by simp) r hpre)

/-- In every execution, and for every identity: what its record says about a withdrawal is true in
    all the states on the way if and only if none of the operations leaves something behind. -/
theorem truthful_iff {cfg : Config F} {start : Int} {es : List (Event F)}
    (hrun : (Manager.new cfg start).Runs es m) (i : String) :
    (∀ es₁ es₂ m₁, es = es₁ ++ es₂ → (Manager.new cfg start).Runs es₁ m₁ →
      TruthfulAfter i es₁ m₁) ↔
    ∀ e ∈ es, ∀ r, e.pre.get? i = some r → ¬ e.LeavesBehind r := by
  constructor
  · intro h e he r hpre
    obtain ⟨es₁, es₂, rfl⟩ := List.append_of_mem he
    obtain ⟨m₁, m₂, hrun₁, hstep, -⟩ := Run.split_cons hrun
    have hr : m₁.get? i = some r := by rw [← hstep.1, hpre]
    -- the record is truthful before and after the event, so it leaves nothing behind
    have hbefore := h es₁ (e :: es₂) m₁ rfl hrun₁ r hr
    have hafter := h (es₁ ++ [e]) es₂ m₂ (by simp) (Run.snoc_iff.mpr ⟨m₁, hrun₁, hstep⟩) _
      (hstep.get? hr)
    rw [causeOf_snoc hpre] at hafter
    exact (Event.effect_truthful_iff hbefore).mp hafter
  · rintro h es₁ es₂ m₁ rfl hrun₁
    exact Manager.Runs.truthful hrun₁ fun e he => h e (List.mem_append_left _ he)

/-! ## Samples -/

/-- What is said about the identity `a`, and whether it is true. -/
private def said (p : List (Event ℚ) × Manager ℚ) : Option (State × Int × String × Bool) :=
  (p.2.get? "a").map fun r =>
    (r.state, r.quarantinedUntil, r.quarantineReason, decide (r.Truthful (causeOf "a" p.1)))

/-- What the record of the first identity says after these calls. -/
private theorem exists_said (calls : List (Int × Op ℚ)) (s : State) (till : Int)
    (reason : String) (truth : Bool)
    (h : ((Manager.new pairConfig 0).perform calls).map said =
      some (some (s, till, reason, truth))) :
    ∃ es m r, (Manager.new pairConfig 0).Runs es m ∧
      es.map (fun e => (e.now, e.op)) = calls ∧ m.get? "a" = some r ∧ r.state = s ∧
      r.quarantinedUntil = till ∧ r.quarantineReason = reason ∧
      decide (r.Truthful (causeOf "a" es)) = truth := by
  simp only [Option.map_eq_some_iff, Prod.exists, said, Prod.mk.injEq] at h
  obtain ⟨es, m, hperform, r, hr, hsaid⟩ := h
  obtain ⟨hrun, hcalls⟩ := Manager.runs_of_perform hperform
  exact ⟨es, m, r, hrun, hcalls, hr, hsaid⟩

/-- The states on the way to a quarantine, which is there for the reason it was imposed for. -/
theorem truthful_iff_listed : ∃ es m r, (Manager.new pairConfig 0).Runs es m ∧
    es.map (fun e => (e.now, e.op)) = [(hour, .quarantine "a" "listed")] ∧
    m.get? "a" = some r ∧ r.state = .quarantined ∧ r.quarantineReason = "listed" ∧
    ∀ es₁ es₂ m₁, es = es₁ ++ es₂ → (Manager.new pairConfig 0).Runs es₁ m₁ →
      TruthfulAfter "a" es₁ m₁ := by
  obtain ⟨es, m, r, hrun, hcalls, hr, hs, -, hq, -⟩ := exists_said
    [(hour, .quarantine "a" "listed")] .quarantined (2 * hour) "listed" true (by decide +kernel)
  refine ⟨es, m, r, hrun, hcalls, hr, hs, hq, (truthful_iff hrun "a").mpr ?_⟩
  intro e he r' _
  have hop : (e.now, e.op) = (hour, .quarantine "a" "listed") := by
    simpa [hcalls] using List.mem_map_of_mem (f := fun e : Event ℚ => (e.now, e.op)) he
  simp [Event.LeavesBehind, (Prod.mk.inj hop).2]

/-- After these calls, what is said about the identity `a` is not true: its state, the end of the
    quarantine and the reason are as given. -/
def Misleading (calls : List (Int × Op ℚ)) (s : State) (till : Int) (reason : String) : Prop :=
  ∃ es m r, (Manager.new pairConfig 0).Runs es m ∧ es.map (fun e => (e.now, e.op)) = calls ∧
    m.get? "a" = some r ∧ r.state = s ∧ r.quarantinedUntil = till ∧ r.quarantineReason = reason ∧
    ¬ TruthfulAfter "a" es m

/-- A run whose evaluation ends in a record that is not truthful. -/
private theorem misleading_of {calls : List (Int × Op ℚ)} {s : State} {till : Int}
    {reason : String} (h : ((Manager.new pairConfig 0).perform calls).map said =
      some (some (s, till, reason, false))) : Misleading calls s till reason := by
  obtain ⟨es, m, r, hrun, hcalls, hr, hs, ht, hq, hfalse⟩ := exists_said calls s till reason _ h
  exact ⟨es, m, r, hrun, hcalls, hr, hs, ht, hq,
    fun htrue => absurd (htrue r hr) (of_decide_eq_false hfalse)⟩

/-- An expired quarantine and one that was ended by `Enable` or `Disable` are still spoken of; and a
    block streak brings back the reason of a quarantine that has expired. -/
theorem left_behind :
    Misleading [(hour, .quarantine "a" "listed"), (3 * hour, .binding gmailTask)]
      .warming (2 * hour) "listed" ∧
    Misleading [(hour, .quarantine "a" "listed"), (hour, .enable "a")] .warming (2 * hour) "" ∧
    Misleading [(hour, .quarantine "a" "listed"), (hour, .disable "a" "maintenance")]
      .disabled (2 * hour) "maintenance" ∧
    Misleading [(hour, .quarantine "a" "listed"), (3 * hour, .binding gmailTask),
      (3 * hour, .emit (List.replicate 5 (gmailSignal .blocked)))]
      .quarantined (4 * hour) "listed" :=
  ⟨misleading_of (by decide +kernel), misleading_of (by decide +kernel),
    misleading_of (by decide +kernel), misleading_of (by decide +kernel)⟩

end Rcptto.Native
