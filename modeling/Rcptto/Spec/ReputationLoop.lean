import Rcptto.Native.Loop
import Rcptto.Spec.Breaker
import Rcptto.Spec.Engine

/-!
# The reputation loop

The signals of a probe come back to the breaker that `Binding` asks about the next probe only
if the engine and the manager agree on the key of the destination. They do for every task
whose provider class is not `custom`; then a destination that keeps failing through an
identity is not tried again through it before the end of the cool-down.

## Key results

- `Event.effect_failures`: a breaker counts the failures filed for its pair
- `not_returns_of_failures`: enough failures in a row keep the identity out
- `Loop.Runs.signals`: what the signals of a probe are filed under
- `closed_loop`: the two together, over executions of the loop
-/

namespace Rcptto.Native

variable {F : Type} [Add F] [Sub F] [Mul F] [OfScientific F] [LinearOrder F]

variable {r : Record F} {e : Event F} {m m' : Manager F} {i d : String}

/-! ## Failures in a row -/

/-- The signals that an event files for a pair, with their time. -/
def Event.filed (e : Event F) (i d : String) : List (Int × SignalKind) :=
  match e.op with
  | .emit signals =>
    (signals.filter fun sig => sig.egressID = i ∧ sig.destination = d).map fun sig =>
      (e.now, sig.kind)
  | _ => []

/-- The failures in a row after the given signals, if there were `n` before. -/
def failuresFrom (n : Int) (kinds : List SignalKind) : Int :=
  kinds.foldl (fun n kind => if kind.isSuccess then 0 else if kind.isFailure then n + 1 else n) n

theorem failuresFrom_append (n : Int) (ks ks' : List SignalKind) :
    failuresFrom n (ks ++ ks') = failuresFrom (failuresFrom n ks) ks' :=
  List.foldl_append ..

theorem SignalKind.not_isSuccess_of_isFailure {kind : SignalKind} (h : kind.isFailure = true) :
    kind.isSuccess = false := by
  cases kind <;> first | rfl | cases h

/-- A count of failures does not become negative. -/
theorem failuresFrom_nonneg {n : Int} (hn : 0 ≤ n) (kinds : List SignalKind) :
    0 ≤ failuresFrom n kinds := by
  refine List.foldlRecOn (motive := fun n : Int => 0 ≤ n) kinds _ hn fun n hn kind _ => ?_
  split_ifs
  · exact Int.le_refl 0
  · exact Int.add_nonneg hn (by decide)
  · exact hn

/-- If all signals are failures, all of them are counted. -/
theorem failuresFrom_of_failures {n : Int} {kinds : List SignalKind}
    (h : ∀ kind ∈ kinds, kind.isFailure = true) : failuresFrom n kinds = n + kinds.length := by
  induction kinds generalizing n with
  | nil => simp [failuresFrom]
  | cons kind kinds ih =>
    rw [List.forall_mem_cons] at h
    have hstep : failuresFrom n (kind :: kinds) = failuresFrom (n + 1) kinds := by
      simp [failuresFrom, h.1, kind.not_isSuccess_of_isFailure h.1]
    rw [hstep, ih h.2, List.length_cons]
    omega

/-- The failures at the end of a history are all counted. -/
theorem length_le_failuresFrom {n : Int} (hn : 0 ≤ n) (init last : List SignalKind)
    (h : ∀ kind ∈ last, kind.isFailure = true) : last.length ≤ failuresFrom n (init ++ last) := by
  have hinit := failuresFrom_nonneg hn init
  rw [failuresFrom_append, failuresFrom_of_failures h]
  omega

/-! ## The counter of a breaker -/

namespace Circuit

variable {t : Tuning F} {now : Int} {c : Option Circuit}

omit [Add F] [Sub F] [Mul F] [OfScientific F] [LinearOrder F]

/-- A breaker is told of the signals for its identity and its destination. -/
theorem applySignals_eq_foldl (signals : List Signal) :
    Circuit.applySignals c t now i d signals =
      ((signals.filter fun sig => sig.egressID = i ∧ sig.destination = d).map (·.kind)).foldl
        (fun c kind => Circuit.applySignal c t now kind) c := by
  rw [List.foldl_map, List.foldl_filter]
  simp only [decide_eq_true_eq]
  rfl

/-- A signal counts as a failure in a row, ends the row, or does neither. -/
theorem failures_applySignal (kind : SignalKind) :
    ((Circuit.applySignal c t now kind).getD {}).failures =
      failuresFrom (c.getD {}).failures [kind] := by
  unfold Circuit.applySignal failuresFrom
  rw [List.foldl_cons, List.foldl_nil]
  split
  · rfl
  · split
    · -- a failure is counted whether or not it opens the breaker
      simp only [Option.getD_some, onFailure]
      split <;> rfl
    · rfl

/-- So do any number of signals. -/
theorem failures_foldl (t : Tuning F) (now : Int) (kinds : List SignalKind) :
    ((kinds.foldl (fun c kind => Circuit.applySignal c t now kind) c).getD {}).failures =
      failuresFrom (c.getD {}).failures kinds := by
  induction kinds generalizing c with
  | nil => rfl
  | cons kind kinds ih =>
    rw [List.foldl_cons, ih, failures_applySignal, ← failuresFrom_append, List.singleton_append]

/-- A failure that brings the counter to the threshold opens the breaker. -/
theorem openUntil_of_failures {kinds : List SignalKind} {kind : SignalKind}
    (hkind : kind.isFailure = true)
    (hcount : t.circuitThreshold ≤ failuresFrom (c.getD {}).failures (kinds ++ [kind])) :
    OpenUntil (now + t.circuitCooldown)
      ((kinds ++ [kind]).foldl (fun c kind => Circuit.applySignal c t now kind) c) := by
  rw [failuresFrom_append, ← failures_foldl t now] at hcount
  rw [List.foldl_append, List.foldl_cons, List.foldl_nil]
  -- whatever the breaker was like before the last failure, the count is reached with it
  generalize kinds.foldl (fun c kind => Circuit.applySignal c t now kind) c = c' at hcount ⊢
  have hsucc := kind.not_isSuccess_of_isFailure hkind
  simp only [failuresFrom, List.foldl_cons, List.foldl_nil, hsucc, hkind, if_true,
    Bool.false_eq_true, if_false] at hcount
  simp only [Circuit.applySignal, hsucc, hkind, if_true, Bool.false_eq_true, if_false]
  refine ⟨_, rfl, ?_⟩
  simp [onFailure, hcount]

end Circuit

omit [LinearOrder F] in
/-- The counter of a breaker follows the signals filed for its pair. -/
theorem Event.effect_failures : (((e.effect r).circuits d).getD {}).failures =
    failuresFrom ((r.circuits d).getD {}).failures ((e.filed r.id d).map Prod.snd) := by
  rw [effect_circuits, circuitEffect, filed]
  cases hop : e.op with
  | binding task =>
    -- asking a breaker does not touch its counter
    dsimp only
    split
    · cases r.circuits d with
      | none => rfl
      | some c =>
        simp only [Option.map_some, Option.getD_some, Circuit.allow]
        split_ifs <;> rfl
    · rfl
  | emit signals =>
    dsimp only
    rw [Circuit.applySignals_eq_foldl, Circuit.failures_foldl, List.map_map]
    rfl
  | _ => rfl

/-- The counter of a breaker after an execution. -/
theorem Manager.Runs.failures {es : List (Event F)} (h : m.Runs es m') (hr : m.get? i = some r) :
    ∃ r', m'.get? i = some r' ∧ ((r'.circuits d).getD {}).failures =
      failuresFrom ((r.circuits d).getD {}).failures
        ((es.flatMap (·.filed i d)).map Prod.snd) := by
  refine h.history (I := fun es m' => ∃ r', m'.get? i = some r' ∧
    ((r'.circuits d).getD {}).failures = failuresFrom ((r.circuits d).getD {}).failures
      ((es.flatMap (·.filed i d)).map Prod.snd)) ⟨r, hr, rfl⟩ ?_
  rintro hist a e b - ⟨r', hr', hcount⟩ hstep
  refine ⟨e.effect r', hstep.get? hr', ?_⟩
  have hid : r'.id = i := a.pool.key_eq i r' hr'
  rw [Event.effect_failures, hcount, hid, ← failuresFrom_append, ← List.map_append,
    List.flatMap_append, List.flatMap_singleton]

/-! ## Probes and their signals -/

/-- The operation is one of those a probe makes. -/
def Op.IsProbe : Op F → Prop
  | .binding _ | .emit _ => True
  | _ => False

/-- A call that belongs to a probe does not change the tuning. -/
theorem Manager.Step.tuning_of_isProbe (h : m.Step e m') (hop : e.op.IsProbe) :
    m'.toTuning = m.toTuning := by
  rw [h.tuning]
  cases hc : e.op with
  | setThresholds quarantine circuit => rw [hc] at hop; exact hop.elim
  | _ => rfl

theorem Manager.Runs.tuning_of_isProbe {es : List (Event F)} (h : m.Runs es m')
    (hop : ∀ e ∈ es, e.op.IsProbe) : m'.toTuning = m.toTuning :=
  h.invariant (P := fun m' => m'.toTuning = m.toTuning) rfl fun _ e _ he ha hstep =>
    (hstep.tuning_of_isProbe (hop e he)).trans ha

/-- Probes add no identity. -/
theorem Manager.Runs.get?_none_of_isProbe {es : List (Event F)} (h : m.Runs es m')
    (hop : ∀ e ∈ es, e.op.IsProbe) (hr : m.get? i = none) : m'.get? i = none := by
  refine h.invariant (P := fun m' => m'.get? i = none) hr fun a e b he ha hstep => ?_
  have he' := hop e he
  rw [hstep.get?_none ha]
  cases hc : e.op with
  | addIdentity spec => rw [hc] at he'; exact he'.elim
  | _ => rfl

omit [Add F] [Sub F] [Mul F] [OfScientific F] [LinearOrder F] in
/-- Where signals have been filed, there is an `Emit`, and its time is theirs. -/
theorem Event.op_of_filed {xs : List (Int × SignalKind)} {T : Int} {kind : SignalKind}
    (h : e.filed i d = xs ++ [(T, kind)]) : (∃ signals, e.op = .emit signals) ∧ T = e.now := by
  unfold filed at h
  -- only an `Emit` files signals
  cases hop : e.op with
  | emit signals =>
    refine ⟨⟨signals, rfl⟩, ?_⟩
    rw [hop] at h
    have hmem : (T, kind) ∈ xs ++ [(T, kind)] := by simp
    rw [← h, List.mem_map] at hmem
    obtain ⟨sig, -, hsig⟩ := hmem
    exact (congrArg Prod.fst hsig).symm
  | _ => simp [hop] at h

omit [Add F] [Sub F] [Mul F] [OfScientific F] [LinearOrder F] in
/-- A probe that files nothing for the pair is quiet, as long as it is made in time. -/
theorem Event.quiet_of_filed_nil {opened till : Int} (h : e.filed i d = []) (hnow : e.now ≤ till) :
    e.Quiet i d opened till := by
  unfold Quiet
  -- a `Binding` has to come in time, and an `Emit` must not concern the pair
  cases hop : e.op with
  | binding task => exact fun _ => hnow
  | emit signals =>
    intro sig hsig hid hdest
    simp only [filed, hop, List.map_eq_nil_iff, List.filter_eq_nil_iff] at h
    have hnot := h sig hsig
    simp only [decide_eq_true_eq] at hnot
    exact absurd ⟨hid, hdest⟩ hnot
  | _ => trivial

/-- If the last signals of a pair are failures, as many as the threshold, then no `Binding`
    up to the end of the cool-down after the last of them returns the identity. -/
theorem not_returns_of_failures {es : List (Event F)} {b : Event F} {start T : Int} {task : Task}
    {init last : List (Int × SignalKind)} {kind : SignalKind} (hrun : m.Runs (es ++ [b]) m')
    (hr : m.get? i = some r) (hcount : 0 ≤ ((r.circuits d).getD {}).failures)
    (hprobe : ∀ e ∈ es, e.op.IsProbe) (hclock : Monotone start (es ++ [b]))
    (hfiled : es.flatMap (·.filed i d) = init ++ (last ++ [(T, kind)]))
    (hlast : ∀ x ∈ last ++ [(T, kind)], x.2.isFailure = true)
    (hlen : m.circuitThreshold ≤ (last ++ [(T, kind)]).length) (hb : b.op = .binding task)
    (hd : destOf task = d) (hnow : b.now ≤ T + m.circuitCooldown) : b.returns i = false := by
  obtain ⟨mb, hruns, hbstep⟩ := Run.snoc_iff.mp hrun
  rw [← List.append_assoc] at hfiled
  obtain ⟨es₁, e, es₂, ys, m₁, m₂, rfl, he, hinit, hquiet, hrun₁, hstep, hrun₂⟩ :=
    hruns.split_output hfiled
  obtain ⟨⟨signals, hop⟩, rfl⟩ := Event.op_of_filed he
  -- the counter when the last failure arrives
  obtain ⟨r₁, hr₁, hcount₁⟩ := Manager.Runs.failures (d := d) hrun₁ hr
  have hid : r₁.id = i := m₁.pool.key_eq i r₁ hr₁
  have htuning : m₁.toTuning = m.toTuning :=
    Manager.Runs.tuning_of_isProbe hrun₁ fun e he => hprobe e (by simp [he])
  have hreached : m.circuitThreshold ≤
      failuresFrom ((r₁.circuits d).getD {}).failures ((ys ++ [(e.now, kind)]).map Prod.snd) := by
    have hall := length_le_failuresFrom hcount (init.map Prod.snd)
      ((last ++ [(e.now, kind)]).map Prod.snd) (List.forall_mem_map.mpr hlast)
    rw [hcount₁, ← failuresFrom_append, ← List.map_append, ← List.append_assoc, ← hinit,
      List.append_assoc, List.map_append]
    rw [List.length_map] at hall
    omega
  have hopen : OpenUntil (e.now + m₂.circuitCooldown) ((e.effect r₁).circuits d) := by
    have hkinds : (signals.filter fun sig => sig.egressID = i ∧ sig.destination = d).map (·.kind) =
        ys.map Prod.snd ++ [kind] := by
      have h := congrArg (List.map Prod.snd) he
      simpa [Event.filed, hop, Function.comp_def] using h
    have hcool : m₂.circuitCooldown = e.pre.circuitCooldown := by
      rw [hstep.fixed_tuning.1, hstep.1]
    rw [Event.effect_circuits, Event.circuitEffect, hop, hid, hcool]
    dsimp only
    rw [Circuit.applySignals_eq_foldl, hkinds]
    apply Circuit.openUntil_of_failures (by simpa using hlast (e.now, kind) (by simp))
    rw [hstep.1, htuning]
    simpa using hreached
  -- what is left up to the `Binding` is quiet, since the clock does not go back
  have hcool : m₂.circuitCooldown = m.circuitCooldown := by
    rw [hstep.fixed_tuning.1]
    exact congrArg Tuning.circuitCooldown htuning
  refine hopen.not_returns_of_runs (hstep.get? hr₁) (Run.snoc_iff.mpr ⟨mb, hrun₂, hbstep⟩) ?_ rfl hb
    hd (by rw [hcool]; exact hnow)
  intro f hf
  apply Event.quiet_of_filed_nil (hquiet f hf)
  rw [hcool]
  refine le_trans ?_ hnow
  exact (monotone_snoc.mp hclock).2 f.now
    (List.mem_cons_of_mem _ (List.mem_map_of_mem (by simp [hf])))

/-! ## The loop -/

section Loop

variable {l l' : Loop F} {acts : List (LoopAction F)} {a : LoopAction F}

/-- The task for which an action asks for a binding. -/
def LoopAction.task : LoopAction F → Option Task
  | .binding e =>
    match e.op with
    | .binding t => some t
    | _ => none
  | _ => none

/-- The signals of the identity `i` that an action emits for a task with the destination `d`,
    with their time. -/
def LoopAction.filed (a : LoopAction F) (i d : String) : List (Int × SignalKind) :=
  match a with
  | .emit _ p e =>
    if destOf p.task = d then
      (p.signals.filter fun sig => sig.egressID = i).map fun sig => (e.now, sig.kind)
    else []
  | _ => []

/-- The end of a `Verify` leaves the manager alone. -/
theorem Loop.Step.manager_of_none (h : l.Step a l') (he : a.event = none) :
    l'.manager = l.manager := by
  unfold Loop.Step at h
  cases a with
  | binding e => cases he
  | verify k cfg env =>
    obtain ⟨t, b, -, rfl⟩ := h
    rfl
  | emit k p e => cases he

/-- The other actions are a `Binding` or an `Emit` of the manager. -/
theorem Loop.Step.manager_of_some (h : l.Step a l') (he : a.event = some e) :
    l.manager.Step e l'.manager ∧ e.op.IsProbe := by
  unfold Loop.Step at h
  -- an engine at work does not call the manager
  cases a with
  | binding e' =>
    obtain rfl : e' = e := Option.some.inj he
    obtain ⟨t, hop, hstep, -⟩ := h
    exact ⟨hstep, by rw [hop]; trivial⟩
  | verify k cfg env => cases he
  | emit k p e' =>
    obtain rfl : e' = e := Option.some.inj he
    obtain ⟨-, hop, hstep, -⟩ := h
    exact ⟨hstep, by rw [hop]; trivial⟩

theorem Loop.Runs.manager (h : l.Runs acts l') :
    l.manager.Runs (acts.filterMap LoopAction.event) l'.manager :=
  Run.project Loop.manager LoopAction.event (fun _ _ _ hstep => hstep.manager_of_none)
    (fun _ _ _ _ hstep he => (hstep.manager_of_some he).1) h

/-- All calls of the manager in it belong to probes. -/
theorem Loop.Runs.isProbe (h : l.Runs acts l') :
    ∀ e ∈ acts.filterMap LoopAction.event, e.op.IsProbe := by
  intro e he
  obtain ⟨a, ha, hev⟩ := List.mem_filterMap.mp he
  obtain ⟨acts₁, acts₂, rfl⟩ := List.append_of_mem ha
  obtain ⟨t, t', -, hstep, -⟩ := h.split_cons
  exact (hstep.manager_of_some hev).2

/-- A finished probe has one signal, about the identity of its binding. Its destination is
    the key of the task exactly if the engine and the manager agree on it. -/
structure Probe.Sound (p : Probe) : Prop where
  signal : ∃ sig, p.signals = [sig] ∧ sig.egressID = p.binding.id ∧
    (sig.destination = destOf p.task ↔ Engine.SameKey p.task)

/-- The signals of a probe name the identity of its binding. -/
theorem Probe.Sound.egressID {p : Probe} (h : p.Sound) :
    ∀ sig ∈ p.signals, sig.egressID = p.binding.id := by
  obtain ⟨sig, hsignals, hid, -⟩ := h.signal
  rw [hsignals]
  intro s hs
  rw [List.mem_singleton.mp hs, hid]

omit [Add F] [Sub F] [Mul F] [LinearOrder F] in
theorem Probe.sound_verify (cfg : Engine.Config) (env : Engine.Env) (t : Task) (b : Binding) :
    Probe.Sound ⟨t, b, (Engine.verify (F := F) cfg env t b).signals⟩ := by
  obtain ⟨kind, code, detail, hsignals⟩ := Engine.verify_signals (F := F) cfg env t b
  exact ⟨_, hsignals, rfl, Engine.destination_eq_destOf_iff t⟩

omit [Add F] [Sub F] [Mul F] [OfScientific F] [LinearOrder F] in
/-- A `Binding` starts a probe of its own task. -/
theorem Loop.fst_of_mem_started {t : Task} {ret : Ret} {q : Task × Binding}
    (h : q ∈ Loop.started t ret) : q.1 = t := by
  unfold Loop.started at h
  split at h
  · rw [List.mem_singleton.mp h]
  · exact absurd h List.not_mem_nil

/-- A probe that runs after an action did so before, or the action asked for it. -/
theorem Loop.Step.mem_running (h : l.Step a l') {q : Task × Binding} (hq : q ∈ l'.running) :
    q ∈ l.running ∨ a.task = some q.1 := by
  unfold Loop.Step at h
  -- only a `Binding` starts a probe
  cases a with
  | binding e =>
    obtain ⟨t, hop, -, hrunning, -⟩ := h
    rw [hrunning, List.mem_append] at hq
    rcases hq with hq | hq
    · exact .inl hq
    · exact .inr (by simp only [LoopAction.task, hop, Loop.fst_of_mem_started hq])
  | verify k cfg env =>
    obtain ⟨t, b, -, rfl⟩ := h
    exact .inl (List.mem_of_mem_eraseIdx hq)
  | emit k p e =>
    obtain ⟨-, -, -, hrunning, -⟩ := h
    exact .inl (hrunning ▸ hq)

/-- A probe that is finished after an action was so before, or it ran before and is sound. -/
theorem Loop.Step.mem_finished (h : l.Step a l') {p : Probe} (hp : p ∈ l'.finished) :
    p ∈ l.finished ∨ p.Sound ∧ (p.task, p.binding) ∈ l.running := by
  unfold Loop.Step at h
  -- only `Verify` finishes a probe, and it returns sound signals
  cases a with
  | binding e =>
    obtain ⟨t, -, -, -, hfinished⟩ := h
    exact .inl (hfinished ▸ hp)
  | verify k cfg env =>
    obtain ⟨t, b, hk, rfl⟩ := h
    rcases List.mem_append.mp hp with hp | hp
    · exact .inl hp
    · rw [List.mem_singleton.mp hp]
      exact .inr ⟨Probe.sound_verify cfg env t b, List.mem_of_getElem? hk⟩
  | emit k p' e =>
    obtain ⟨-, -, -, -, hfinished⟩ := h
    rw [hfinished] at hp
    exact .inl (List.mem_of_mem_eraseIdx hp)

/-- What is under way in the loop after some actions: every probe was asked for by one of
    them, and the finished ones are sound. -/
structure Loop.Inv (acts : List (LoopAction F)) (l : Loop F) : Prop where
  running : ∀ q ∈ l.running, ∃ a ∈ acts, a.task = some q.1
  finished : ∀ p ∈ l.finished, p.Sound ∧ ∃ a ∈ acts, a.task = some p.task

/-- One step: probes under way belong to tasks of the history, and finished ones are sound. -/
theorem Loop.Inv.step (h : Loop.Inv acts l) (hstep : l.Step a l') :
    Loop.Inv (acts ++ [a]) l' := by
  -- an action that is in the history stays there
  have hmono : ∀ {t : Task}, (∃ a ∈ acts, a.task = some t) →
      ∃ a' ∈ acts ++ [a], a'.task = some t := by
    rintro t ⟨a', ha', ht⟩
    exact ⟨a', List.mem_append_left _ ha', ht⟩
  refine ⟨fun q hq => ?_, fun p hp => ?_⟩
  · rcases hstep.mem_running hq with hq | htask
    · exact hmono (h.running q hq)
    · exact ⟨a, by simp, htask⟩
  · rcases hstep.mem_finished hp with hp | ⟨hsound, hrunning⟩
    · exact ⟨(h.finished p hp).1, hmono (h.finished p hp).2⟩
    · exact ⟨hsound, hmono (h.running _ hrunning)⟩

theorem Loop.Runs.inv (h : Loop.Runs { manager := m } acts l) : Loop.Inv acts l :=
  h.history (I := Loop.Inv) ⟨by simp, by simp⟩ fun _ _ _ _ _ hinv hstep => hinv.step hstep

/-- The probe whose signals an action of the loop emits is sound, its task was asked for
    before, and the manager gets its signals. -/
theorem Loop.Runs.signals {k : Nat} {p : Probe} (h : Loop.Runs { manager := m } acts l)
    (ha : .emit k p e ∈ acts) :
    p.Sound ∧ (∃ a ∈ acts, a.task = some p.task) ∧ e.op = .emit p.signals := by
  obtain ⟨acts₁, acts₂, rfl⟩ := List.append_of_mem ha
  obtain ⟨t, t', hrun₁, ⟨hk, hop, -⟩, -⟩ := h.split_cons
  obtain ⟨hsound, a, ha, htask⟩ := (Loop.Runs.inv hrun₁).finished p (List.mem_of_getElem? hk)
  exact ⟨hsound, ⟨a, List.mem_append_left _ ha, htask⟩, hop⟩

/-- Where the engine and the manager agree on the keys, the signals for the tasks of a
    destination are the signals that the manager files for it. -/
theorem Loop.Runs.filed_eq (h : Loop.Runs { manager := m } acts l)
    (hkeys : ∀ a ∈ acts, ∀ t ∈ a.task, Engine.SameKey t) (i d : String) :
    acts.flatMap (·.filed i d) = (acts.filterMap LoopAction.event).flatMap (·.filed i d) := by
  have hfiled : ∀ a ∈ acts, a.filed i d = (a.event.toList).flatMap (·.filed i d) := by
    intro a ha
    cases a with
    | binding e =>
      obtain ⟨acts₁, acts₂, rfl⟩ := List.append_of_mem ha
      obtain ⟨t, t', -, ⟨task, hop, -⟩, -⟩ := h.split_cons
      simp [LoopAction.filed, LoopAction.event, Event.filed, hop]
    | verify k cfg env => rfl
    | emit k p e =>
      obtain ⟨⟨sig, hsig, -, hdest⟩, ⟨a, ha', htask⟩, hop⟩ := Loop.Runs.signals h ha
      -- this is where the keys have to agree
      have hkey : sig.destination = destOf p.task := hdest.mpr (hkeys a ha' _ htask)
      simp only [LoopAction.filed, LoopAction.event, Option.toList_some, List.flatMap_singleton,
        Event.filed, hop, hsig, ← hkey]
      by_cases hd : sig.destination = d
      · by_cases hid : sig.egressID = i <;> simp [hd, hid]
      · simp [hd]
  rw [List.flatMap_congr hfiled]
  clear hfiled hkeys h
  induction acts with
  | nil => rfl
  | cons a acts ih =>
    rw [List.flatMap_cons, ih]
    cases hev : a.event with
    | none => rw [List.filterMap_cons_none hev]; rfl
    | some e => rw [List.filterMap_cons_some hev]; simp

/-- The reputation loop. Every signal of a probe is about the identity the probe was made
    with, and it is filed under the key that `Binding` reads for the task if and only if the
    provider class of the task is not `custom` (or is also its domain). In an execution in
    which that holds for every task, and whose clock does not go back: whenever the last
    signals of an identity for the tasks of a destination are failures, as many as the
    threshold of the breaker, no `Binding` for that destination returns the identity up to
    the end of the cool-down. -/
theorem closed_loop {cfg : Config F} {start : Int}
    (hrun : Loop.Runs { manager := Manager.new cfg start } acts l) :
    (∀ (k : Nat) (p : Probe) (e : Event F), .emit k p e ∈ acts → ∃ sig : Signal,
      e.op = .emit [sig] ∧ sig.egressID = p.binding.id ∧
      (sig.destination = destOf p.task ↔ Engine.SameKey p.task)) ∧
    ((∀ a ∈ acts, ∀ t ∈ a.task, Engine.SameKey t) →
      Monotone start (acts.filterMap LoopAction.event) →
      ∀ (acts₁ : List (LoopAction F)) (b : Event F) (acts₂ : List (LoopAction F)) (task : Task)
        (i : String) (init last : List (Int × SignalKind)) (T : Int) (kind : SignalKind),
        acts = acts₁ ++ .binding b :: acts₂ → b.op = .binding task →
        acts₁.flatMap (·.filed i (destOf task)) = init ++ (last ++ [(T, kind)]) →
        (∀ x ∈ last ++ [(T, kind)], x.2.isFailure = true) →
        (Manager.tuningOf cfg).circuitThreshold ≤ (last ++ [(T, kind)]).length →
        b.now ≤ T + (Manager.tuningOf cfg).circuitCooldown → b.returns i = false) := by
  constructor
  · intro k p e ha
    obtain ⟨⟨sig, hsig, hid, hdest⟩, -, hop⟩ := Loop.Runs.signals hrun ha
    exact ⟨sig, by rw [hop, hsig], hid, hdest⟩
  · rintro hkeys hclock acts₁ b acts₂ task i init last T kind rfl hb hfiled hlast hlen hnow
    obtain ⟨l₁, l₂, hrun₁, hstep, -⟩ := hrun.split_cons
    have hbstep : l₁.manager.Step b l₂.manager := (hstep.manager_of_some rfl).1
    have hkeys₁ : ∀ a ∈ acts₁, ∀ t ∈ a.task, Engine.SameKey t :=
      fun a ha => hkeys a (List.mem_append_left _ ha)
    rw [Loop.Runs.filed_eq hrun₁ hkeys₁] at hfiled
    have hmruns := Loop.Runs.manager hrun₁
    have hprobe := Loop.Runs.isProbe hrun₁
    -- the clock up to the `Binding`
    have hclock₁ : Monotone start (acts₁.filterMap LoopAction.event ++ [b]) := by
      have hev : LoopAction.event (.binding b) = some b := rfl
      rw [List.filterMap_append, List.filterMap_cons_some hev] at hclock
      refine List.Pairwise.sublist ?_ hclock
      simp
    cases hr : (Manager.new cfg start).get? i with
    | none =>
      -- an identity that is not configured is never returned
      have hnone := Manager.Runs.get?_none_of_isProbe hmruns hprobe hr
      apply hbstep.not_returns_of_not_eligible
      intro task' r hop' hr'
      exact absurd (hnone.symm.trans hr') (by simp)
    | some r =>
      obtain ⟨spec, -, -, rfl⟩ := Manager.exists_of_get?_new hr
      exact not_returns_of_failures (Run.snoc_iff.mpr ⟨l₁.manager, hmruns, hbstep⟩) hr
        (Int.le_refl 0) hprobe hclock₁ hfiled hlast hlen hb rfl hnow

end Loop

/-! ## Unreachable destinations -/

/-- A network in which every dial fails. -/
private def noRoute : Engine.Env where
  network _ := none
  now := 0
  random := none

/-- The manager after a `Binding`. -/
private def bound (m : Manager ℚ) (now : Int) (t : Task) : Manager ℚ :=
  ((m.binding now t).map Prod.fst).getD m

/-- The event of a `Binding` that returns `ret`. -/
private def bindEvent (m : Manager ℚ) (now : Int) (t : Task) (ret : Except EgressError Binding) :
    Event ℚ where
  pre := m
  now := now
  op := .binding t
  ret := some ret

/-- The probe of a task whose servers cannot be reached. -/
private def refusedProbe (t : Task) (b : Binding) : Probe where
  task := t
  binding := b
  signals := Engine.signals b .connRefused t 0 "all mx unreachable"

/-- The actions of such a probe from the manager `m`, all at the time `now`. -/
private def refusedActions (m : Manager ℚ) (now : Int) (t : Task) (b : Binding) :
    List (LoopAction ℚ) :=
  [.binding (bindEvent m now t (.ok b)), .verify 0 {} noRoute,
    .emit 0 (refusedProbe t b)
      { pre := bound m now t, now := now, op := .emit (refusedProbe t b).signals, ret := none }]

/-- The manager after such a probe. -/
private def refused (m : Manager ℚ) (now : Int) (t : Task) (b : Binding) : Manager ℚ :=
  (bound m now t).emit now (refusedProbe t b).signals

/-- A `Binding` with nothing else under way. -/
private theorem step_binding {m : Manager ℚ} {now : Int} {t : Task}
    {ret : Except EgressError Binding} (h : (m.binding now t).map Prod.snd = some ret) :
    Loop.Step { manager := m } (.binding (bindEvent m now t ret))
      { manager := bound m now t, running := Loop.started t (some ret) } := by
  refine ⟨t, rfl, ⟨rfl, ?_⟩, rfl, rfl⟩
  obtain ⟨⟨m', ret⟩, hbind, rfl⟩ := Option.map_eq_some_iff.mp h
  simp [Manager.exec, bindEvent, bound, hbind]

/-- A probe whose connection is refused, from its `Binding` to its `Emit`. -/
private theorem runs_refused {m : Manager ℚ} {now : Int} {t : Task} {b : Binding} {host : String}
    (hmx : t.mx = [host]) (h : (m.binding now t).map Prod.snd = some (.ok b)) :
    Loop.Runs { manager := m } (refusedActions m now t b) { manager := refused m now t b } := by
  have hverify : (Engine.verify (F := ℚ) {} noRoute t b).signals = (refusedProbe t b).signals := by
    simp [Engine.verify, Engine.probeHosts, hmx, noRoute, refusedProbe]
  have hprobe : Loop.Step { manager := bound m now t, running := [(t, b)] } (.verify 0 {} noRoute)
      { manager := bound m now t, finished := [refusedProbe t b] } := by
    refine ⟨t, b, rfl, ?_⟩
    rw [hverify]
    rfl
  exact .cons (step_binding h)
    (.cons hprobe (Run.singleton_iff.mpr ⟨rfl, rfl, ⟨rfl, rfl⟩, rfl, rfl⟩))

/-- The binding of the only identity of `soloConfig`. -/
private def bindingA : Binding := { id := "a", helo := "", mailFrom := "", transport := {} }

/-- Three probes of the same destination, one after the other, none of which gets through. -/
private def threeRefused (m : Manager ℚ) (t : Task) : List (LoopAction ℚ) :=
  refusedActions m 1 t bindingA ++
    (refusedActions (refused m 1 t bindingA) 2 t bindingA ++
      refusedActions (refused (refused m 1 t bindingA) 2 t bindingA) 3 t bindingA)

/-- The manager after them. -/
private def afterThree (m : Manager ℚ) (t : Task) : Manager ℚ :=
  refused (refused (refused m 1 t bindingA) 2 t bindingA) 3 t bindingA

/-- Three of them. -/
private theorem runs_threeRefused {m : Manager ℚ} {t : Task} {host : String} (hmx : t.mx = [host])
    (h₁ : (m.binding 1 t).map Prod.snd = some (.ok bindingA))
    (h₂ : ((refused m 1 t bindingA).binding 2 t).map Prod.snd = some (.ok bindingA))
    (h₃ : ((refused (refused m 1 t bindingA) 2 t bindingA).binding 3 t).map Prod.snd =
      some (.ok bindingA)) :
    Loop.Runs { manager := m } (threeRefused m t) { manager := afterThree m t } :=
  (runs_refused hmx h₁).append ((runs_refused hmx h₂).append (runs_refused hmx h₃))

/-- After three failures at the provider `gmail`, the identity is kept out for 15 minutes. -/
theorem closed_loop_gmail : ∃ (acts : List (LoopAction ℚ)) (b : Event ℚ) (l : Loop ℚ),
    Loop.Runs { manager := Manager.new soloConfig 0 } (acts ++ [.binding b]) l ∧
    acts.flatMap (·.filed "a" "gmail") =
      [(1, .connRefused), (2, .connRefused), (3, .connRefused)] ∧
    b.op = .binding gmailTask ∧ b.now = 15 * minute ∧ b.returns "a" = false := by
  let m := Manager.new soloConfig 0
  have hret : ((afterThree m gmailTask).binding (15 * minute) gmailTask).map Prod.snd =
      some (.error .errNoEgress) := by decide +kernel
  have hruns := (runs_threeRefused (m := m) (t := gmailTask) rfl (by decide +kernel)
    (by decide +kernel) (by decide +kernel)).append (Run.singleton_iff.mpr (step_binding hret))
  -- three failures within the threshold are filed under the key of the task
  have hfiled : (threeRefused m gmailTask).flatMap (·.filed "a" "gmail") =
      [(1, .connRefused), (2, .connRefused), (3, .connRefused)] := by decide +kernel
  have hkeys : ∀ a ∈ threeRefused m gmailTask ++ [.binding (bindEvent (afterThree m gmailTask)
      (15 * minute) gmailTask (.error .errNoEgress))], ∀ t ∈ a.task, Engine.SameKey t := by
    decide +kernel
  refine ⟨_, _, _, hruns, hfiled, rfl, rfl, ?_⟩
  exact (closed_loop hruns).2 hkeys (by decide +kernel) _ _ [] gmailTask "a" []
    [(1, .connRefused), (2, .connRefused)] 3 .connRefused rfl rfl hfiled (by decide)
    (by decide +kernel) (by decide +kernel)

/-- A task for a domain that belongs to no known provider. -/
def customTask : Task where
  email := "user@example.com"
  normalized := "user@example.com"
  domain := "example.com"
  provider := "custom"
  mx := ["mx.example.com"]

/-- Three failures at a domain of its own are filed under `custom`, where no `Binding` looks
    for them: the fourth probe gets the same identity at once. -/
theorem returns_after_failures : ∃ (acts : List (LoopAction ℚ)) (b : Event ℚ) (l : Loop ℚ),
    Loop.Runs { manager := Manager.new soloConfig 0 } (acts ++ [.binding b]) l ∧
    acts.flatMap (·.filed "a" "example.com") =
      [(1, .connRefused), (2, .connRefused), (3, .connRefused)] ∧
    (acts.filterMap LoopAction.event).flatMap (·.filed "a" "example.com") = [] ∧
    (acts.filterMap LoopAction.event).flatMap (·.filed "a" "custom") =
      [(1, .connRefused), (2, .connRefused), (3, .connRefused)] ∧
    (Manager.tuningOf soloConfig).circuitThreshold = 3 ∧
    (Manager.tuningOf soloConfig).circuitCooldown = 15 * minute ∧
    destOf customTask = "example.com" ∧ b.op = .binding customTask ∧ b.now = 4 ∧
    b.returns "a" = true := by
  let m := Manager.new soloConfig 0
  have hret : ((afterThree m customTask).binding 4 customTask).map Prod.snd =
      some (.ok bindingA) := by decide +kernel
  have hruns := (runs_threeRefused (m := m) (t := customTask) rfl (by decide +kernel)
    (by decide +kernel) (by decide +kernel)).append (Run.singleton_iff.mpr (step_binding hret))
  exact ⟨_, _, _, hruns, by decide +kernel, by decide +kernel, by decide +kernel,
    by decide +kernel, by decide +kernel, by decide +kernel, rfl, rfl, by decide +kernel⟩

end Rcptto.Native
