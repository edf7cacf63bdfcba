import Mathlib.Data.List.DropRight
import Rcptto.Spec.Reachable

/-!
# Block streaks and quarantine

The `Blocked` signals of an identity, over all destinations, build up a streak that ends
with a success, with `Enable` or with the recovery from a quarantine. `streak` reads it
off the history of an identity, `streakFrom` carries it through a batch of signals, and
`Trips` says when a batch quarantines. An identity that is quarantined, or disabled
meanwhile, is held back until the end of the cool-down (`HeldUntil`).

## Key results

- `Record.applySignals_state`: `Emit` changes the lifecycle state exactly when it trips
- `Event.effect_blockStreak`: every operation carries the streak along the history
- `HeldUntil.effect`: nothing but `Enable` and `Restore` releases an identity early
- `quarantine_exact_and_lasting`: the three together, over whole executions
-/

namespace Rcptto.Native

variable {F : Type} [Add F] [Sub F] [Mul F] [OfScientific F] [LinearOrder F]

/-! ## Streaks -/

/-- What the block streak of an identity remembers of an event. -/
inductive Mark where
  | blocked
  | cleared
  deriving DecidableEq

/-- The number of `blocked` marks since the last `cleared`. -/
def streak (marks : List Mark) : Nat :=
  (marks.rtakeWhile (· = .blocked)).length

/-- The streak `n` carried through further marks. -/
def streakFrom (n : Int) (marks : List Mark) : Int :=
  marks.foldl (fun n mark => match mark with | .blocked => n + 1 | .cleared => 0) n

theorem streakFrom_append (n : Int) (ms ms' : List Mark) :
    streakFrom n (ms ++ ms') = streakFrom (streakFrom n ms) ms' :=
  List.foldl_append ..

/-- Carrying the streak from the beginning of the history counts it. -/
theorem streakFrom_zero (marks : List Mark) : streakFrom 0 marks = streak marks := by
  induction marks using List.reverseRecOn with
  | nil => rfl
  | append_singleton ms m ih =>
    rw [streakFrom_append, ih, streak, streak]
    -- a block prolongs the run at the end, and a clear mark ends it
    cases m with
    | blocked =>
      rw [List.rtakeWhile_concat_pos _ _ _ (by decide)]
      simp [streakFrom]
    | cleared =>
      rw [List.rtakeWhile_concat_neg _ _ _ (by decide)]
      simp [streakFrom]

/-- The mark a signal leaves. -/
def Signal.mark (sig : Signal) : Option Mark :=
  if sig.kind.isSuccess then some .cleared
  else if sig.kind = .blocked then some .blocked
  else none

/-- The marks a batch of signals leaves on the identity `i`. -/
def marksOf (i : String) (signals : List Signal) : List Mark :=
  signals.filterMap fun sig => if sig.egressID = i then sig.mark else none

theorem marksOf_append (i : String) (s₁ s₂ : List Signal) :
    marksOf i (s₁ ++ s₂) = marksOf i s₁ ++ marksOf i s₂ :=
  List.filterMap_append

/-- A batch of signals for an identity whose streak is `n` quarantines it: one of its
    `Blocked` signals brings the streak to the threshold. -/
def Trips (threshold n : Int) (i : String) (signals : List Signal) : Prop :=
  ∃ s₁ sig s₂, signals = s₁ ++ sig :: s₂ ∧ sig.egressID = i ∧ sig.kind = .blocked ∧
    threshold ≤ streakFrom n (marksOf i (s₁ ++ [sig]))

theorem trips_nil {threshold n : Int} {i : String} : ¬ Trips threshold n i [] := by
  rintro ⟨s₁, sig, s₂, h, -⟩
  simp at h

/-- The last signal trips if it is a block that makes the streak long enough. -/
theorem trips_snoc {threshold n : Int} {i : String} {signals : List Signal} {sig : Signal} :
    Trips threshold n i (signals ++ [sig]) ↔ Trips threshold n i signals ∨
      sig.egressID = i ∧ sig.kind = .blocked ∧
        threshold ≤ streakFrom n (marksOf i (signals ++ [sig])) := by
  constructor
  · rintro ⟨s₁, sig', s₂, h, hid, hkind, hle⟩
    -- the signal that trips is the last one, or comes before it
    rcases List.eq_nil_or_concat s₂ with rfl | ⟨s₂, last, rfl⟩
    · obtain ⟨rfl, hsig⟩ := List.append_inj' h rfl
      obtain rfl : sig = sig' := by simpa using hsig
      exact .inr ⟨hid, hkind, hle⟩
    · rw [List.concat_eq_append, ← List.cons_append, ← List.append_assoc] at h
      obtain ⟨rfl, -⟩ := List.append_inj' h rfl
      exact .inl ⟨s₁, sig', s₂, rfl, hid, hkind, hle⟩
  · rintro (⟨s₁, sig', s₂, rfl, hid, hkind, hle⟩ | ⟨hid, hkind, hle⟩)
    · exact ⟨s₁, sig', s₂ ++ [sig], by simp, hid, hkind, hle⟩
    · exact ⟨signals, sig, [], rfl, hid, hkind, hle⟩

/-! ## Signals -/

namespace Record

variable {r : Record F} {t : Tuning F} {now : Int}

omit [LinearOrder F] in
/-- A signal continues the streak by its mark. -/
private theorem applySignal_blockStreak (sig : Signal) : (r.applySignal t now sig).blockStreak =
    streakFrom r.blockStreak sig.mark.toList := by
  unfold applySignal Signal.mark
  cases sig.kind with
  | blocked =>
    dsimp only
    split <;> rfl
  | _ => rfl

omit [LinearOrder F] in
/-- Only a block that makes the streak long enough quarantines. -/
private theorem applySignal_state (r : Record F) (t : Tuning F) (now : Int) (sig : Signal) :
    if sig.kind = .blocked ∧ t.quarantineThreshold ≤ r.blockStreak + 1 then
      (r.applySignal t now sig).state = .quarantined ∧
        (r.applySignal t now sig).quarantinedUntil = now + t.quarantineCooldown
    else
      (r.applySignal t now sig).state = r.state ∧
        (r.applySignal t now sig).quarantinedUntil = r.quarantinedUntil := by
  unfold applySignal
  cases sig.kind with
  | blocked =>
    simp only [true_and, updateHealth, updateCircuit, ge_iff_le]
    split <;> simp
  | _ => exact ⟨rfl, rfl⟩

omit [LinearOrder F] in
/-- A batch carries the streak through the marks of the identity. -/
theorem applySignals_blockStreak (signals : List Signal) :
    (r.applySignals t now signals).blockStreak =
      streakFrom r.blockStreak (marksOf r.id signals) := by
  induction signals using List.reverseRecOn with
  | nil => rfl
  | append_singleton signals sig ih =>
    rw [applySignals_snoc, marksOf_append, streakFrom_append, ← ih]
    by_cases hid : sig.egressID = r.id
    · rw [if_pos hid, applySignal_blockStreak]
      cases hm : sig.mark <;> simp [marksOf, hid, hm]
    · rw [if_neg hid]
      simp [marksOf, hid, streakFrom]

omit [LinearOrder F] in
/-- `Emit` changes the lifecycle state of an identity exactly when the batch trips. -/
theorem applySignals_state (r : Record F) (t : Tuning F) (now : Int) (signals : List Signal) :
    (Trips t.quarantineThreshold r.blockStreak r.id signals →
      (r.applySignals t now signals).state = .quarantined ∧
        (r.applySignals t now signals).quarantinedUntil = now + t.quarantineCooldown) ∧
    (¬ Trips t.quarantineThreshold r.blockStreak r.id signals →
      (r.applySignals t now signals).state = r.state ∧
        (r.applySignals t now signals).quarantinedUntil = r.quarantinedUntil) := by
  induction signals using List.reverseRecOn with
  | nil => exact ⟨fun h => absurd h trips_nil, fun _ => ⟨rfl, rfl⟩⟩
  | append_singleton signals sig ih =>
    rw [trips_snoc, applySignals_snoc]
    by_cases hid : sig.egressID = r.id
    · -- the signal trips if it is `Blocked` and one more reaches the threshold
      have hone : sig.kind = .blocked → streakFrom r.blockStreak (marksOf r.id (signals ++ [sig])) =
          (r.applySignals t now signals).blockStreak + 1 := by
        intro hkind
        rw [applySignals_blockStreak, marksOf_append, streakFrom_append]
        simp [marksOf, hid, Signal.mark, hkind, SignalKind.isSuccess, streakFrom]
      have hlast := (r.applySignals t now signals).applySignal_state t now sig
      rw [if_pos hid]
      by_cases htrip : sig.kind = .blocked ∧
          t.quarantineThreshold ≤ (r.applySignals t now signals).blockStreak + 1
      · rw [if_pos htrip] at hlast
        refine ⟨fun _ => hlast, fun hnot => absurd (.inr ⟨hid, htrip.1, ?_⟩) hnot⟩
        rw [hone htrip.1]
        exact htrip.2
      · rw [if_neg htrip] at hlast
        rw [hlast.1, hlast.2]
        have hnot : ¬ (sig.egressID = r.id ∧ sig.kind = .blocked ∧ t.quarantineThreshold ≤
            streakFrom r.blockStreak (marksOf r.id (signals ++ [sig]))) := by
          rintro ⟨-, hkind, hle⟩
          rw [hone hkind] at hle
          exact htrip ⟨hkind, hle⟩
        simpa [hnot] using ih
    · -- a signal of another identity
      rw [if_neg hid]
      simpa [hid] using ih

end Record

/-! ## Histories -/

/-- The marks an event leaves on the identity `i`, from the moment it is registered: those
    of its signals, of an `Enable`, and of a `Binding` that finds its quarantine expired. -/
def Event.marks (e : Event F) (i : String) : List Mark :=
  match e.pre.get? i with
  | none => []
  | some r =>
    match e.op with
    | .emit signals => marksOf i signals
    | .enable id => if id = i then [.cleared] else []
    | .binding _ =>
      if r.state = .quarantined ∧ e.now > r.quarantinedUntil then [.cleared] else []
    | _ => []

/-- The marks an execution leaves on the identity `i`. -/
def history (es : List (Event F)) (i : String) : List Mark :=
  es.flatMap (·.marks i)

variable {start : Int} {es : List (Event F)} {e : Event F} {i : String} {r : Record F}
  {m m' : Manager F}

omit [LinearOrder F] in
/-- Every operation except `Restore` carries the streak of an identity along its marks. -/
theorem Event.effect_blockStreak (hpre : e.pre.get? r.id = some r) (hop : ¬ e.op.IsRestore) :
    (e.effect r).blockStreak = streakFrom r.blockStreak (e.marks r.id) := by
  unfold marks
  simp only [hpre]
  -- only signals, an `Enable` and the end of a quarantine leave marks
  cases hc : e.op with
  | binding task =>
    rw [(effect_binding_frame hc r).2.2.2.1, Record.reconcile_blockStreak]
    dsimp only
    split <;> rfl
  | restore states => rw [hc] at hop; exact absurd trivial hop
  | emit signals =>
    simp only [effect, hc]
    exact Record.applySignals_blockStreak signals
  | enable id =>
    simp only [effect, hc]
    split <;> rfl
  | setThresholds quarantine circuit => simp only [effect, hc]; rfl
  | _ =>
    simp only [effect, hc]
    split <;> rfl

/-- The streak of a registered identity is the one its history shows. -/
theorem Manager.Runs.blockStreak {cfg : Config F} (h : (Manager.new cfg start).Runs es m)
    (hes : NoRestore es) (hr : m.get? i = some r) : r.blockStreak = streak (history es i) := by
  rw [← streakFrom_zero]
  suffices hinv : NoRestore es → (m.get? i = none → history es i = []) ∧
      ∀ r, m.get? i = some r → r.blockStreak = streakFrom 0 (history es i) from
    (hinv hes).2 r hr
  refine h.history (I := fun es m => NoRestore es → (m.get? i = none → history es i = []) ∧
    ∀ r, m.get? i = some r → r.blockStreak = streakFrom 0 (history es i)) ?_ ?_
  · refine fun _ => ⟨fun _ => rfl, fun r hr => ?_⟩
    obtain ⟨spec, -, -, rfl⟩ := exists_of_get?_new hr
    rfl
  · intro es m e m' hrun ih hstep hes
    obtain ⟨hnone, hsome⟩ := ih fun e he => hes e (by simp [he])
    have hpre := hstep.1
    have hsnoc : history (es ++ [e]) i = history es i ++ e.marks i := by
      simp [history]
    rw [hsnoc]
    cases hr : m.get? i with
    | some r =>
      -- a registered identity stays registered, and its streak follows the marks
      obtain rfl : r.id = i := m.pool.key_eq i r hr
      rw [hstep.get? hr]
      refine ⟨fun h => (by cases h), fun r' hr' => ?_⟩
      rw [Option.some.injEq] at hr'
      rw [← hr', Event.effect_blockStreak (by rw [hpre]; exact hr) (hes e (by simp)),
        streakFrom_append, hsome r hr]
    | none =>
      -- an identity that is not registered has no history, and starts without a streak
      have hmarks : e.marks i = [] := by simp only [Event.marks, hpre, hr]
      rw [hmarks, hnone hr]
      refine ⟨fun _ => rfl, fun r' hr' => ?_⟩
      obtain ⟨spec, -, -, rfl⟩ := hstep.fresh_of_get?_none hr hr'
      rfl

/-! ## Held back -/

/-- The identity is withdrawn, and no quarantine of it ends before `till`. -/
def HeldUntil (till : Int) (r : Record F) : Prop :=
  r.Withdrawn ∧ (r.state = .quarantined → till ≤ r.quarantinedUntil)

namespace HeldUntil

variable {till : Int}

omit [Add F] [Sub F] [Mul F] [OfScientific F] [LinearOrder F] in
/-- Up to `till`, reconciliation does not release an identity that is held back. -/
theorem reconcile_state (h : HeldUntil till r) (stages : Nat) {now : Int} (hnow : now ≤ till) :
    (r.reconcile stages now).state = r.state := by
  apply Record.reconcile_state_of_ne
  · rcases h.1 with hs | hs <;> rw [hs] <;> decide
  · intro hs
    exact hnow.trans (h.2 hs)

/-- An identity that is held back is not returned. -/
theorem not_returns (h : HeldUntil till r) (hstep : m.Step e m') (hr : m.get? i = some r)
    (hnow : e.now ≤ till) : e.returns i = false := by
  apply hstep.not_returns_of_not_eligible
  intro task r' hop hr' hel
  obtain rfl : r = r' := Option.some.inj (hr.symm.trans hr')
  apply hel.not_withdrawn
  unfold Record.Withdrawn
  rw [h.reconcile_state m.warmupStages.length hnow]
  exact h.1

omit [LinearOrder F] in
/-- Up to `till`, an event keeps an identity held back, unless it is `Restore` or an
    `Enable` of that identity. A quarantine imposed now must end at `till` or later. -/
theorem effect (h : HeldUntil till r) (hop : ¬ e.op.IsRestore) (hen : e.op ≠ .enable r.id)
    (hnow : e.now ≤ till) (hcool : till ≤ e.now + e.pre.quarantineCooldown) :
    HeldUntil till (e.effect r) := by
  cases hc : e.op with
  | binding task =>
    -- the quarantine has not expired yet, so reconciliation does not release it
    obtain ⟨hs, -, -, -, hq⟩ := Event.effect_binding_frame hc r
    rw [h.reconcile_state _ hnow] at hs
    unfold HeldUntil Record.Withdrawn
    rw [hs, hq]
    exact h
  | restore states => rw [hc] at hop; exact absurd trivial hop
  | emit signals =>
    obtain ⟨htrip, hkeep⟩ := r.applySignals_state e.pre.toTuning e.now signals
    simp only [Event.effect, hc]
    by_cases ht : Trips e.pre.quarantineThreshold r.blockStreak r.id signals
    · -- a new quarantine, also of a disabled identity
      obtain ⟨hs, hq⟩ := htrip ht
      refine ⟨.inr hs, fun _ => ?_⟩
      rw [hq]
      exact hcool
    · obtain ⟨hs, hq⟩ := hkeep ht
      unfold HeldUntil Record.Withdrawn
      rw [hs, hq]
      exact h
  | enable id =>
    simp only [Event.effect, hc]
    have hne : id ≠ r.id := fun hid => hen (by rw [hc, hid])
    rw [if_neg hne]
    exact h
  | disable id reason =>
    simp only [Event.effect, hc]
    split
    · exact ⟨.inl rfl, fun hs => by cases hs⟩
    · exact h
  | quarantine id reason =>
    simp only [Event.effect, hc]
    split
    · exact ⟨.inr rfl, fun _ => hcool⟩
    · exact h
  | setThresholds quarantine circuit => simp only [Event.effect, hc]; exact h
  | _ =>
    simp only [Event.effect, hc]
    split <;> exact h

end HeldUntil

/-! ## Executions -/

/-- A batch of signals quarantines the identity `i` with the given history: one of its
    `Blocked` signals brings the streak to the threshold. -/
def BlockedOut (threshold : Int) (marks : List Mark) (i : String) (signals : List Signal) : Prop :=
  ∃ s₁ sig s₂, signals = s₁ ++ sig :: s₂ ∧ sig.egressID = i ∧ sig.kind = .blocked ∧
    threshold ≤ streak (marks ++ marksOf i (s₁ ++ [sig]))

/-- Signals trip from the streak that the marks have left if they block the identity out. -/
theorem trips_streak {threshold : Int} {marks : List Mark} {signals : List Signal} :
    Trips threshold (streak marks) i signals ↔ BlockedOut threshold marks i signals := by
  unfold Trips BlockedOut
  simp only [← streakFrom_zero, streakFrom_append]

/-- After an event that holds the identity `i` back until `till`, it is not returned
    before, unless `Enable` of it runs in between. -/
theorem not_returns_of_heldUntil {till : Int} {fs : List (Event F)} {b : Event F} {m'' : Manager F}
    (hr : m.get? i = some r) (hheld : HeldUntil till r)
    (hrun : m.Runs (fs ++ [b]) m'') (hclock : Monotone start (fs ++ [b])) (hfs : NoRestore fs)
    (hen : ∀ f ∈ fs, f.op ≠ .enable i) (htill : till ≤ start + m.quarantineCooldown)
    (hnow : b.now ≤ till) : b.returns i = false := by
  obtain ⟨m₁, hrun₁, hstep⟩ := Run.snoc_iff.mp hrun
  obtain ⟨hmono, hle⟩ := monotone_snoc.mp hclock
  -- the cool-down is part of the invariant: a later quarantine must not end sooner
  have hinv : m₁.quarantineCooldown = m.quarantineCooldown ∧
      ∃ r, m₁.get? i = some r ∧ HeldUntil till r := by
    refine hrun₁.invariant (P := fun m₁ => m₁.quarantineCooldown = m.quarantineCooldown ∧
      ∃ r, m₁.get? i = some r ∧ HeldUntil till r) ⟨rfl, r, hr, hheld⟩ ?_
    rintro a f a' hf ⟨hcool, r, hr, hheld⟩ hstep
    refine ⟨hstep.fixed_tuning.2.1.trans hcool, f.effect r, hstep.get? hr, ?_⟩
    have hid : r.id = i := a.pool.key_eq i r hr
    have hstart := hmono.start_le hf
    have hend := hle f.now (by simpa using .inr ⟨f, hf, rfl⟩)
    refine hheld.effect (hfs f hf) (by rw [hid]; exact hen f hf) (by omega) ?_
    rw [hstep.1, hcool]
    omega
  obtain ⟨-, r', hr', hheld'⟩ := hinv
  exact hheld'.not_returns hstep hr' hnow

/-- Quarantine is exact and lasting. In every execution from `New` without `Restore`, for
    every registered identity `i`: the block streak is the number of `Blocked` signals for
    `i` since the last success, `Enable` or recovery in its history; `Emit` quarantines `i`
    exactly when a `Blocked` signal brings that number to the threshold in force, and
    otherwise leaves its state alone; and after such an `Emit`, or a `Quarantine` of `i`, no
    `Binding` returns `i` within the cool-down unless `Enable` of `i` ran in between. -/
theorem quarantine_exact_and_lasting {cfg : Config F} (hrun : (Manager.new cfg start).Runs es m)
    (hes : NoRestore es) (hr : m.get? i = some r) :
    r.blockStreak = streak (history es i) ∧
    ∀ e m', m.Step e m' →
      (∀ signals, e.op = .emit signals → ∃ r', m'.get? i = some r' ∧
        (BlockedOut m.quarantineThreshold (history es i) i signals →
          r'.state = .quarantined ∧ r'.quarantinedUntil = e.now + m.quarantineCooldown) ∧
        (¬ BlockedOut m.quarantineThreshold (history es i) i signals →
          r'.state = r.state ∧ r'.quarantinedUntil = r.quarantinedUntil)) ∧
      ((∃ signals, e.op = .emit signals ∧
          BlockedOut m.quarantineThreshold (history es i) i signals) ∨
        (∃ reason, e.op = .quarantine i reason) →
        ∀ fs b m'', m'.Runs (fs ++ [b]) m'' → Monotone start (es ++ e :: (fs ++ [b])) →
          NoRestore fs → (∀ f ∈ fs, f.op ≠ .enable i) →
          b.now ≤ e.now + m.quarantineCooldown → b.returns i = false) := by
  have hstreak := hrun.blockStreak hes hr
  have hid : r.id = i := m.pool.key_eq i r hr
  refine ⟨hstreak, fun e m' hstep => ?_⟩
  have hemit : ∀ signals, e.op = .emit signals →
      e.effect r = r.applySignals m.toTuning e.now signals := by
    intro signals hop
    simp only [Event.effect, hop, hstep.1]
  have hstate : ∀ signals, _ := fun signals => r.applySignals_state m.toTuning e.now signals
  simp only [hid, hstreak, trips_streak] at hstate
  refine ⟨fun signals hop => ⟨e.effect r, hstep.get? hr, ?_⟩, ?_⟩
  · rw [hemit signals hop]
    exact hstate signals
  · intro hevent fs b m'' hrun' hclock hfs hen hnow
    -- both ways into quarantine leave the same end of the cool-down
    have hheld : HeldUntil (e.now + m.quarantineCooldown) (e.effect r) := by
      rcases hevent with ⟨signals, hop, hout⟩ | ⟨reason, hop⟩
      · obtain ⟨hs, hq⟩ := (hstate signals).1 hout
        rw [hemit signals hop]
        exact ⟨.inr hs, fun _ => hq.ge⟩
      · simp only [Event.effect, hop, hid, if_true, hstep.1]
        exact ⟨.inr rfl, fun _ => le_rfl⟩
    refine not_returns_of_heldUntil (hstep.get? hr) hheld hrun' hclock.after hfs hen ?_ hnow
    rw [hstep.fixed_tuning.2.1]

/-- Two identities, and quarantine at the first block. -/
def strictConfig : Config ℚ where
  identities := [{ id := "a" }, { id := "b" }]
  healthAlpha := 0
  quarantineThreshold := 1

/-- One block is enough for a strict threshold, and an hour later it still holds. -/
theorem quarantine_exact_and_lasting_once : ∃ e m b m', (Manager.new strictConfig 0).Step e m ∧
    m.Runs [b] m' ∧ e.now = 2 ∧ e.op = .emit [gmailSignal .blocked] ∧ b.now = hour ∧
    b.op = .binding gmailTask ∧ (∃ r, m.get? "a" = some r ∧ r.state = .quarantined) ∧
    b.returns "a" = false := by
  obtain ⟨e, m, b, m', hstep, hbstep, he, hb, -, -⟩ := (Manager.new strictConfig 0).exists_steps
    (2, .emit [gmailSignal .blocked]) (hour, .binding gmailTask) Event.ret none
    (some (.ok { id := "b", helo := "", mailFrom := "", transport := {} })) (by decide +kernel)
  have hrun' : m.Runs [b] m' := Run.singleton_iff.mpr hbstep
  -- the threshold is one, so the first block reaches it
  have hout : BlockedOut (Manager.new strictConfig 0).quarantineThreshold
      (history ([] : List (Event ℚ)) "a") "a" [gmailSignal .blocked] :=
    ⟨[], gmailSignal .blocked, [], rfl, rfl, rfl, by decide⟩
  have hclock : Monotone 0 ([] ++ e :: ([] ++ [b])) := by
    simp [Monotone, he, hb, hour, minute]
  obtain ⟨-, hnext⟩ := quarantine_exact_and_lasting (i := "a") (r := .fresh { id := "a" } 0)
    (Run.nil (Manager.new strictConfig 0)) (fun _ h => by cases h) rfl
  obtain ⟨hemit, hlast⟩ := hnext e m hstep
  obtain ⟨r, hr, hs, -⟩ := hemit _ he.2
  refine ⟨e, m, b, m', hstep, hrun', he.1, he.2, hb.1, hb.2, ⟨r, hr, (hs hout).1⟩, ?_⟩
  refine hlast (.inl ⟨_, he.2, hout⟩) [] b m' hrun' hclock (fun _ h => by cases h)
    (fun _ h => by cases h) ?_
  rw [he.1, hb.1]
  decide

end Rcptto.Native
