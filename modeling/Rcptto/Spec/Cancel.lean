import Rcptto.Spec.Jobs

/-!
# Canceling jobs

`Cancel` reads the status of the job, looks for its cancel function, calls it and sets the
status, each under a lock of its own. Two promises depend on what happens in between.

A terminal status is final, as long as no job is completed under a `Cancel` that has already
read it as running. And `Cancel` stops the job, as long as it finds the cancel function, the
loop of `process` prefers the canceled context to a free slot, and no worker that has its
slot has yet to call the verifier.

## Key results

- `JobRun.Step.entry_cases`: what a step does to the stored job
- `status_final`: a terminal status never changes
- `completed_job_canceled`: it does change under a late `Cancel`
- `cancel_stops`: no call of the verifier starts after `Cancel`
- `verify_after_cancel`: three ways in which one does
-/

namespace Rcptto.Native

variable {F : Type} {b : Batch} {s s' : JobRun F} {a : JobAction F} {as as' : List (JobAction F)}

/-! ## The stored status -/

/-- The stored status of the job. -/
def JobRun.status (s : JobRun F) : Option JobStatus := s.entry.map (·.job.status)

namespace JobEntry

/-- The next result completes the job. -/
def Completing (e : JobEntry F) : Prop :=
  e.job.status ≠ .canceled ∧ e.job.done + 1 ≥ e.job.total

/-- A result changes the status only if it completes the job. -/
theorem status_appendResult (e : JobEntry F) (r : JobResult F) (now : Int) :
    (e.appendResult r now).job.status = e.job.status ∨
      e.Completing ∧ (e.appendResult r now).job.status = .completed := by
  unfold appendResult
  dsimp only
  split
  · rename_i h
    exact .inr ⟨h, rfl⟩
  · exact .inl rfl

/-- A job that is canceled stays so when a result comes in late. -/
theorem terminal_appendResult {e : JobEntry F} (h : e.job.status.terminal = true)
    (r : JobResult F) (now : Int) : (e.appendResult r now).job.status = e.job.status := by
  rcases e.status_appendResult r now with heq | ⟨⟨hne, -⟩, heq⟩
  · exact heq
  · simp only [JobStatus.terminal, Bool.or_eq_true, decide_eq_true_eq, hne, or_false] at h
    rw [heq, h]

end JobEntry

variable [OfScientific F]

/-- What a step does to the stored job. -/
theorem JobRun.Step.entry_cases (h : s.Step b a s') :
    s'.entry = s.entry ∨ s.phase = .creating ∨
    (∃ k now r, a = .append k now ∧ s.workers ≠ [] ∧
      s'.entry = s.entry.map (·.appendResult r now)) ∨
    ((s.phase = .marking ∨ s.cancels ≠ []) ∧
      ∃ now, s'.entry = s.entry.map (·.setStatus .canceled now)) := by
  -- only `append`, `mark` and `cancelSet` write to the entry of a job that has been created
  cases a with
  | createJob => exact .inr (.inl h.1)
  | register | drain | verify | verified | exit | join | forget | check | cancelLookup |
      cancelSignal =>
    left
    simp only [JobRun.Step] at h
    simp [h]
  | dispatch | stop =>
    obtain ⟨email, rest, -, -, rfl⟩ := h
    exact .inl rfl
  | append k now =>
    obtain ⟨v, label, labels, hw, rfl⟩ := h
    exact .inr (.inr (.inl ⟨k, now, _, rfl, fun hnil => by simp [hnil] at hw, rfl⟩))
  | release =>
    obtain ⟨v, -, rfl⟩ := h
    exact .inl rfl
  | mark now =>
    obtain ⟨hp, rfl⟩ := h
    exact .inr (.inr (.inr ⟨.inl hp, now, rfl⟩))
  | cancelRead =>
    left
    simp only [JobRun.Step] at h
    rw [h]
    split <;> rfl
  | cancelSet k now =>
    obtain ⟨hk, rfl⟩ := h
    refine .inr (.inr (.inr ⟨.inr fun hnil => ?_, now, rfl⟩))
    simp [hnil] at hk

/-! ## A terminal status is final -/

/-- The step does not complete the job while a `Cancel` is under way that has read it as
    unfinished. -/
def JobRun.Uncontested (s : JobRun F) : JobAction F → Prop
  | .append _ _ => (∃ e, s.entry = some e ∧ e.Completing) → s.cancels = []
  | _ => True

/-- The executions in which no job is completed under a `Cancel`. -/
abbrev JobRun.UncontestedRuns (b : Batch) (s : JobRun F) (as : List (JobAction F))
    (s' : JobRun F) : Prop :=
  Run (fun s a s' => s.Uncontested a ∧ JobRun.Step b s a s') s as s'

/-- Nothing is left that could change a completed job: no `Cancel` is under way, and `finish`
    is not about to mark it. -/
structure Settled (s : JobRun F) : Prop where
  creating : s.phase = .creating → s.entry = none
  ended : s.phase.over = true → s.workers = []
  marking : s.phase = .marking → s.status ≠ some .completed
  completed : s.status = some .completed → s.cancels = []

namespace Settled

/-- A step keeps a terminal status. -/
theorem status_eq {st : JobStatus} (h : Settled s) (hstep : s.Step b a s')
    (hst : s.status = some st) (hterm : st.terminal = true) : s'.status = some st := by
  obtain ⟨e, he, rfl⟩ := Option.map_eq_some_iff.mp hst
  rcases hstep.entry_cases with heq | hp | ⟨k, now, r, -, -, heq⟩ | ⟨hopen, now, heq⟩
  · rw [JobRun.status, heq]
    exact hst
  · rw [h.creating hp] at he
    cases he
  · rw [JobRun.status, heq, he]
    simp [e.terminal_appendResult hterm]
  · -- the job is not completed, so it is canceled already
    have hne : s.status ≠ some .completed := by
      rcases hopen with hp | hc
      · exact h.marking hp
      · exact fun hcompleted => hc (h.completed hcompleted)
    have hcanceled : e.job.status = .canceled := by
      have hne' : e.job.status ≠ .completed := fun hc => hne (by rw [hst, hc])
      simpa [JobStatus.terminal, hne'] using hterm
    rw [JobRun.status, heq, he, hcanceled]
    rfl

omit [OfScientific F] in
/-- A step of `process` or `finish` that leaves the stored job alone. -/
theorem of_phase (h : Settled s) (hentry : s'.entry = s.entry) (hcancels : s'.cancels = s.cancels)
    (hcreating : s'.phase = .creating → s.phase = .creating)
    (hover : s'.phase.over = true → s'.workers = [])
    (hmarking : s'.phase = .marking → s.status ≠ some .completed) : Settled s' := by
  have hstatus : s'.status = s.status := by rw [JobRun.status, hentry, JobRun.status]
  refine ⟨fun hp => ?_, hover, fun hp => ?_, fun hc => ?_⟩
  · rw [hentry]
    exact h.creating (hcreating hp)
  · rw [hstatus]
    exact hmarking hp
  · rw [hcancels]
    exact h.completed (hstatus.symm.trans hc)

omit [OfScientific F] in
/-- A step of a worker that leaves the stored job alone. -/
theorem of_workers (h : Settled s) (hentry : s'.entry = s.entry)
    (hcancels : s'.cancels = s.cancels) (hphase : s'.phase = s.phase)
    (hworkers : s.workers = [] → s'.workers = []) : Settled s' := by
  refine h.of_phase hentry hcancels (hphase ▸ id) (fun ho => ?_) (fun hp => ?_)
  · rw [hphase] at ho
    exact hworkers (h.ended ho)
  · rw [hphase] at hp
    exact h.marking hp

omit [OfScientific F] in
/-- A step of a `Cancel` on a job that is not completed. -/
theorem of_cancels (h : Settled s) (hne : s.status ≠ some .completed)
    {canceled : Bool} {cancels : List CancelCall} :
    Settled { s with canceled := canceled, cancels := cancels } :=
  ⟨h.creating, h.ended, h.marking, fun hc => absurd hc hne⟩

omit [OfScientific F] in
/-- As long as a `Cancel` is under way, the job is not completed. -/
theorem status_ne {k : Nat} {c : CancelCall} (h : Settled s) (hk : s.cancels[k]? = some c) :
    s.status ≠ some .completed := by
  intro hc
  rw [h.completed hc] at hk
  cases hk

omit [OfScientific F] in
/-- Setting the status leaves no completed job. -/
theorem status_setStatus_ne {entry : Option (JobEntry F)} {now : Int} :
    (entry.map (·.setStatus .canceled now)).map (·.job.status) ≠ some .completed := by
  cases entry with
  | none => simp
  | some e => simp [JobEntry.setStatus]

/-- Every step of an uncontested execution keeps a completed job settled. -/
theorem step (h : Settled s) (hstep : s.Step b a s') (ha : s.Uncontested a) : Settled s' := by
  cases a with
  | createJob now =>
    obtain ⟨-, rfl⟩ := hstep
    exact ⟨by simp, by simp [Phase.over], by simp, by simp [JobRun.status]⟩
  | register | drain =>
    obtain ⟨-, rfl⟩ := hstep
    exact h.of_phase rfl rfl (by simp) (by simp [Phase.over]) (by simp)
  | dispatch | stop =>
    obtain ⟨email, rest, -, -, rfl⟩ := hstep
    exact h.of_phase rfl rfl (by simp) (by simp [Phase.over]) (by simp)
  | verify | verified | exit =>
    obtain ⟨-, rfl⟩ := hstep
    exact h.of_workers rfl rfl rfl fun hnil => by simp [hnil]
  | append k now =>
    obtain ⟨v, label, labels, hw, rfl⟩ := hstep
    have hbusy : s.phase.over ≠ true := fun ho => by simp [h.ended ho] at hw
    refine ⟨fun hp => ?_, fun ho => absurd ho hbusy, fun hp => ?_, fun hc => ?_⟩
    · simp [h.creating hp]
    · exact absurd (by rw [show s.phase = .marking from hp]; rfl) hbusy
    · -- the job was completed before, or this result completes it
      obtain ⟨e', he', hcompleted⟩ := Option.map_eq_some_iff.mp hc
      obtain ⟨e, he, rfl⟩ := Option.map_eq_some_iff.mp he'
      rcases e.status_appendResult ⟨label, v⟩ now with heq | ⟨hlast, -⟩
      · refine h.completed ?_
        rw [JobRun.status, he, Option.map_some, ← heq, hcompleted]
      · exact ha ⟨e, he, hlast⟩
  | release =>
    obtain ⟨v, -, rfl⟩ := hstep
    exact h.of_workers rfl rfl rfl fun hnil => by simp [hnil]
  | join =>
    obtain ⟨-, hnil, rfl⟩ := hstep
    exact h.of_phase rfl rfl (by simp) (fun _ => hnil) (by simp)
  | forget =>
    obtain ⟨hp, rfl⟩ := hstep
    exact h.of_phase rfl rfl (by simp) (fun _ => h.ended (by rw [hp]; rfl)) (by simp)
  | check =>
    obtain ⟨hp, rfl⟩ := hstep
    refine h.of_phase rfl rfl ?_ (fun _ => h.ended (by rw [hp]; rfl)) ?_
    · dsimp only
      split <;> simp
    · -- `finish` marks a job that it has read as running
      dsimp only
      split
      · rename_i hrunning
        intro _ hc
        obtain ⟨e, he, hcompleted⟩ := Option.map_eq_some_iff.mp hc
        simp [he, hcompleted] at hrunning
      · simp
  | mark now =>
    obtain ⟨hp, rfl⟩ := hstep
    exact ⟨by simp, fun _ => h.ended (by rw [hp]; rfl), by simp,
      fun hc => absurd hc status_setStatus_ne⟩
  | cancelRead =>
    simp only [JobRun.Step] at hstep
    subst hstep
    split
    · rename_i hopen
      refine h.of_cancels fun hc => ?_
      obtain ⟨e, he, hcompleted⟩ := Option.map_eq_some_iff.mp hc
      simp [he, hcompleted, JobStatus.terminal] at hopen
    · exact h
  | cancelLookup k | cancelSignal k =>
    obtain ⟨hk, rfl⟩ := hstep
    exact h.of_cancels (h.status_ne hk)
  | cancelSet k now =>
    obtain ⟨-, rfl⟩ := hstep
    refine ⟨fun hp => ?_, h.ended, fun _ => status_setStatus_ne,
      fun hc => absurd hc status_setStatus_ne⟩
    rw [h.creating hp]
    rfl

end Settled

/-- A terminal status is final in every execution in which no job is completed while a
    `Cancel` is under way that has read it as unfinished. -/
theorem status_final {st : JobStatus} (h : JobRun.UncontestedRuns b {} as s)
    (h' : JobRun.UncontestedRuns b s as' s') (hst : s.status = some st)
    (hterm : st.terminal = true) : s'.status = some st := by
  have hsettled : Settled s := by
    refine h.invariant ⟨fun _ => rfl, fun _ => rfl, by simp, by simp [JobRun.status]⟩ ?_
    intro t a t' _ ht hstep
    exact ht.step hstep.2 hstep.1
  have hkept : Settled s' ∧ s'.status = some st := by
    refine h'.invariant (P := fun t => Settled t ∧ t.status = some st) ⟨hsettled, hst⟩ ?_
    intro t a t' _ ht hstep
    exact ⟨ht.1.step hstep.2 hstep.1, ht.1.status_eq hstep.2 ht.2 hterm⟩
  exact hkept.2

/-- `pairBatch` after a `Cancel` that came before its cancel function was registered. -/
def pairCanceled : JobRun ℚ where
  entry := some
    { job := { status := .canceled, total := 2, createdAt := 0, completedAt := some 1 } }
  phase := .registering

theorem runs_pairCanceled : JobRun.UncontestedRuns pairBatch {}
    [.createJob 0, .cancelRead, .cancelLookup 0, .cancelSet 0 1] pairCanceled :=
  .cons ⟨trivial, rfl, rfl⟩ (.cons ⟨trivial, rfl⟩
    (.cons ⟨trivial, rfl, rfl⟩ (.cons ⟨trivial, .inl rfl, rfl⟩ (.nil _))))

/-- All addresses are verified after that, and the job stays canceled. -/
theorem status_final_canceled : ∃ as s, JobRun.UncontestedRuns pairBatch pairCanceled as s ∧
    s.entry.map (·.job.done) = some 2 ∧ s.status = some .canceled := by
  let v : Verdict ℚ := outcome "u@b" 5 none
  let s : JobRun ℚ :=
    { pairCanceled with
      entry := (pairCanceled.entry.map (·.appendResult ⟨"x", v⟩ 6)).map (·.appendResult ⟨"y", v⟩ 7)
      registered := true
      phase := .dispatching []
      workers := [.recording v []] }
  -- both labels of the one address are recorded
  have hrun : JobRun.UncontestedRuns pairBatch pairCanceled
      [.register, .dispatch, .verify 0 "u@b", .verified 0 "u@b" none 5, .append 0 6, .append 0 7]
      s := by
    refine .cons ⟨trivial, rfl, rfl⟩ ?_
    rw [order_pair]
    refine .cons ⟨trivial, "u@b", [], rfl, by decide, rfl⟩ (.cons ⟨trivial, rfl, rfl⟩
      (.cons ⟨trivial, rfl, rfl⟩ ?_))
    rw [labels_pair]
    refine .cons ⟨fun _ => rfl, v, "x", ["y"], rfl, rfl⟩ ?_
    exact .cons ⟨fun _ => rfl, v, "y", [], rfl, rfl⟩ (.nil _)
  exact ⟨_, s, hrun, rfl, status_final runs_pairCanceled hrun rfl rfl⟩

/-- A `Cancel` that has read the job as running marks it as canceled after its last result has
    completed it. -/
theorem completed_job_canceled : ∃ as s s', JobRun.Runs pairBatch ({} : JobRun ℚ) as s ∧
    s.status = some .completed ∧ s.Step pairBatch (.cancelSet 0 8) s' ∧
    s'.status = some .canceled := by
  let s : JobRun ℚ :=
    { pairLast with
      entry := pairLast.entry.map (·.appendResult ⟨"y", outcome "u@b" 5 none⟩ 7)
      canceled := true
      workers := [.recording (outcome "u@b" 5 none) []]
      cancels := [.signalled] }
  have hrun : JobRun.Runs pairBatch pairLast
      [.cancelRead, .cancelLookup 0, .cancelSignal 0, .append 0 7] s :=
    .cons rfl (.cons ⟨rfl, rfl⟩ (.cons ⟨rfl, rfl⟩ (.cons ⟨_, "y", [], rfl, rfl⟩ (.nil _))))
  exact ⟨_, s, _, runs_pairLast.append hrun, rfl, ⟨.inr rfl, rfl⟩, rfl⟩

/-! ## `Cancel` stops the job -/

/-- The step leaves a `Cancel` its effect: `Cancel` does not look for the cancel function
    before it is registered, the loop of `process` takes no slot once its context is canceled,
    and `Cancel` does not return while a worker has yet to call the verifier. -/
def JobRun.Prompt (s : JobRun F) : JobAction F → Prop
  | .cancelLookup _ => s.phase ≠ .registering
  | .dispatch => s.canceled = false
  | .cancelSet _ _ => ∀ email, .starting email ∉ s.workers
  | _ => True

/-- The executions whose steps all leave a `Cancel` its effect. -/
abbrev JobRun.PromptRuns (b : Batch) (s : JobRun F) (as : List (JobAction F))
    (s' : JobRun F) : Prop :=
  Run (fun s a s' => s.Prompt a ∧ JobRun.Step b s a s') s as s'

/-- Every `Cancel` under way is heard: it has canceled the context, or it came when `process`
    had returned, or it is still to find the cancel function. -/
structure Heard (s : JobRun F) : Prop where
  creating : s.phase = .creating → s.entry = none ∧ s.cancels = []
  registered : s.registered = false →
    s.phase = .creating ∨ s.phase = .registering ∨ s.phase.over = true
  signalled : .signalled ∈ s.cancels → s.canceled = true
  absent : .absent ∈ s.cancels → s.phase.over = true

namespace Heard

omit [OfScientific F] in
/-- A step of `process` or `finish`. -/
theorem of_phase (h : Heard s) (hcancels : s'.cancels = s.cancels)
    (hcanceled : s.canceled = true → s'.canceled = true) (hcreating : s'.phase ≠ .creating)
    (hregistered : s'.registered = false → s'.phase = .registering ∨ s'.phase.over = true)
    (hover : s.phase.over = true → s'.phase.over = true) : Heard s' := by
  refine ⟨fun hp => absurd hp hcreating, fun hr => .inr (hregistered hr), fun hmem => ?_,
    fun hmem => ?_⟩
  · rw [hcancels] at hmem
    exact hcanceled (h.signalled hmem)
  · rw [hcancels] at hmem
    exact hover (h.absent hmem)

omit [OfScientific F] in
/-- The cancel function is registered while the loop of `process` runs. -/
theorem registered_of {rest : List String} (h : Heard s) (hp : s.phase = .dispatching rest) :
    s.registered = true := by
  cases hr : s.registered with
  | true => rfl
  | false =>
    have := h.registered hr
    rw [hp] at this
    simp [Phase.over] at this

/-- A prompt step keeps every `Cancel` heard. -/
theorem step (h : Heard s) (hstep : s.Step b a s') (ha : s.Prompt a) : Heard s' := by
  cases a with
  | createJob now =>
    obtain ⟨hp, rfl⟩ := hstep
    exact h.of_phase rfl id (by simp) (fun _ => .inl rfl) (by simp [hp, Phase.over])
  | register =>
    obtain ⟨hp, rfl⟩ := hstep
    exact h.of_phase rfl id (by simp) (by simp) (by simp [hp, Phase.over])
  | dispatch | stop =>
    obtain ⟨email, rest, hp, -, rfl⟩ := hstep
    exact h.of_phase rfl id (by simp) (by simp [h.registered_of hp]) (by simp [hp, Phase.over])
  | drain =>
    obtain ⟨hp, rfl⟩ := hstep
    exact h.of_phase rfl id (by simp) (by simp [h.registered_of hp]) (by simp [hp, Phase.over])
  | join =>
    obtain ⟨-, -, rfl⟩ := hstep
    exact h.of_phase rfl id (by simp) (fun _ => .inr rfl) (fun _ => rfl)
  | forget =>
    obtain ⟨-, rfl⟩ := hstep
    exact h.of_phase rfl (fun hc => by simp [hc]) (by simp) (fun _ => .inr rfl) (fun _ => rfl)
  | check =>
    obtain ⟨-, rfl⟩ := hstep
    split
    · exact h.of_phase rfl id (by simp) (fun _ => .inr rfl) (fun _ => rfl)
    · exact h.of_phase rfl id (by simp) (fun _ => .inr rfl) (fun _ => rfl)
  | mark now =>
    obtain ⟨-, rfl⟩ := hstep
    exact h.of_phase rfl id (by simp) (fun _ => .inr rfl) (fun _ => rfl)
  | verify | verified | exit =>
    obtain ⟨-, rfl⟩ := hstep
    exact ⟨h.creating, h.registered, h.signalled, h.absent⟩
  | append k now =>
    obtain ⟨v, label, labels, -, rfl⟩ := hstep
    exact ⟨fun hp => by simp [h.creating hp], h.registered, h.signalled, h.absent⟩
  | release =>
    obtain ⟨v, -, rfl⟩ := hstep
    exact ⟨h.creating, h.registered, h.signalled, h.absent⟩
  | cancelRead =>
    simp only [JobRun.Step] at hstep
    subst hstep
    split
    · rename_i hopen
      refine ⟨fun hp => ?_, h.registered, fun hmem => h.signalled ?_, fun hmem => h.absent ?_⟩
      · simp [(h.creating hp).1] at hopen
      · simpa using hmem
      · simpa using hmem
    · exact h
  | cancelLookup k =>
    obtain ⟨hk, rfl⟩ := hstep
    have hne : s.cancels ≠ [] := fun hnil => by simp [hnil] at hk
    refine ⟨fun hp => absurd (h.creating hp).2 hne, h.registered, fun hmem => ?_, fun hmem => ?_⟩
    · rcases List.mem_or_eq_of_mem_set hmem with hmem | heq
      · exact h.signalled hmem
      · split at heq <;> cases heq
    · rcases List.mem_or_eq_of_mem_set hmem with hmem | heq
      · exact h.absent hmem
      · -- the cancel function is gone, as the job is past its registration
        cases hr : s.registered with
        | true => simp [hr] at heq
        | false =>
          rcases h.registered hr with hp | hp | hover
          · exact absurd (h.creating hp).2 hne
          · exact absurd hp ha
          · exact hover
  | cancelSignal k =>
    obtain ⟨hk, rfl⟩ := hstep
    have hne : s.cancels ≠ [] := fun hnil => by simp [hnil] at hk
    refine ⟨fun hp => absurd (h.creating hp).2 hne, h.registered, fun _ => rfl, fun hmem => ?_⟩
    rcases List.mem_or_eq_of_mem_set hmem with hmem | heq
    · exact h.absent hmem
    · cases heq
  | cancelSet k now =>
    obtain ⟨-, rfl⟩ := hstep
    refine ⟨fun hp => ?_, h.registered, fun hmem => h.signalled (List.mem_of_mem_eraseIdx hmem),
      fun hmem => h.absent (List.mem_of_mem_eraseIdx hmem)⟩
    simp [h.creating hp]

end Heard

/-- No call of the verifier can start any more. -/
structure Stopped (s : JobRun F) : Prop where
  canceled : s.phase.over = false → s.canceled = true
  idle : ∀ email, .starting email ∉ s.workers

namespace Stopped

omit [OfScientific F] in
/-- A step of a worker that has made its call already. -/
theorem of_set {k : Nat} {w : Worker F} {entry : Option (JobEntry F)} (h : Stopped s)
    (hw : ∀ email, w ≠ .starting email) :
    Stopped { s with entry := entry, workers := s.workers.set k w } := by
  refine ⟨h.canceled, fun email hmem => ?_⟩
  rcases List.mem_or_eq_of_mem_set hmem with hmem | heq
  · exact h.idle email hmem
  · exact hw email heq.symm

/-- One step of a stopped job: it stays stopped, and no call of `Verify` begins. -/
theorem step (h : Stopped s) (hstep : s.Step b a s') (ha : s.Prompt a) :
    Stopped s' ∧ verifyCalls [a] = [] := by
  cases a with
  | createJob | register | drain =>
    obtain ⟨hp, rfl⟩ := hstep
    exact ⟨⟨fun _ => h.canceled (by rw [hp]; rfl), h.idle⟩, rfl⟩
  | dispatch =>
    -- a prompt loop does not take a slot once its context is canceled
    obtain ⟨email, rest, hp, -, rfl⟩ := hstep
    exact absurd (h.canceled (by rw [hp]; rfl)) (by simp [show s.canceled = false from ha])
  | stop =>
    obtain ⟨email, rest, -, hc, rfl⟩ := hstep
    exact ⟨⟨fun _ => hc, h.idle⟩, rfl⟩
  | verify k email => exact absurd (List.mem_of_getElem? hstep.1) (h.idle email)
  | verified =>
    obtain ⟨-, rfl⟩ := hstep
    exact ⟨h.of_set (by simp), rfl⟩
  | append =>
    obtain ⟨v, label, labels, -, rfl⟩ := hstep
    exact ⟨h.of_set (by simp), rfl⟩
  | release =>
    obtain ⟨v, -, rfl⟩ := hstep
    exact ⟨h.of_set (by simp), rfl⟩
  | exit =>
    obtain ⟨-, rfl⟩ := hstep
    exact ⟨⟨h.canceled, fun email hmem => h.idle email (List.mem_of_mem_eraseIdx hmem)⟩, rfl⟩
  | join =>
    -- from here on nothing is dispatched whatever the context says
    obtain ⟨-, -, rfl⟩ := hstep
    exact ⟨⟨by simp [Phase.over], h.idle⟩, rfl⟩
  | forget | mark =>
    obtain ⟨-, rfl⟩ := hstep
    exact ⟨⟨by simp [Phase.over], h.idle⟩, rfl⟩
  | check =>
    obtain ⟨-, rfl⟩ := hstep
    split
    · exact ⟨⟨by simp [Phase.over], h.idle⟩, rfl⟩
    · exact ⟨⟨by simp [Phase.over], h.idle⟩, rfl⟩
  | cancelRead =>
    simp only [JobRun.Step] at hstep
    subst hstep
    split
    · exact ⟨⟨h.canceled, h.idle⟩, rfl⟩
    · exact ⟨h, rfl⟩
  | cancelSignal =>
    obtain ⟨-, rfl⟩ := hstep
    exact ⟨⟨fun _ => rfl, h.idle⟩, rfl⟩
  | cancelLookup | cancelSet =>
    obtain ⟨-, rfl⟩ := hstep
    exact ⟨⟨h.canceled, h.idle⟩, rfl⟩

/-- A whole execution after the job has stopped makes no call. -/
theorem runs (h : Stopped s) (hrun : JobRun.PromptRuns b s as s') : verifyCalls as = [] := by
  have hboth : Stopped s' ∧ verifyCalls as = [] := by
    refine hrun.history (I := fun as t => Stopped t ∧ verifyCalls as = []) ⟨h, rfl⟩ ?_
    intro hist t a t' _ ht hstep
    obtain ⟨hstopped, hnone⟩ := ht.1.step hstep.2 hstep.1
    refine ⟨hstopped, ?_⟩
    rw [verifyCalls, List.filterMap_append]
    exact List.append_eq_nil_iff.mpr ⟨ht.2, hnone⟩
  exact hboth.2

end Stopped

/-- Once a `Cancel` has returned for a job that was not finished, no call of the verifier
    starts, in every execution whose steps all leave a `Cancel` its effect. -/
theorem cancel_stops {k : Nat} {now : Int}
    (h : JobRun.PromptRuns b {} (as ++ .cancelSet k now :: as') s) : verifyCalls as' = [] := by
  obtain ⟨t, t', hbefore, ⟨ha, hstep⟩, hafter⟩ := h.split_cons
  -- the cancel has been heard by the time it sets the status
  have hheard : Heard t := by
    refine hbefore.invariant ⟨fun _ => ⟨rfl, rfl⟩, fun _ => .inl rfl, by simp, by simp⟩ ?_
    intro t a t' _ ht hstep
    exact ht.step hstep.2 hstep.1
  have hstopped : Stopped t' := by
    obtain ⟨hk, rfl⟩ := hstep
    refine ⟨fun hover => ?_, ha⟩
    -- it found the job over, or it has canceled the context
    rcases hk with hk | hk
    · exact absurd (hheard.absent (List.mem_of_getElem? hk)) (by simpa using hover)
    · exact hheard.signalled (List.mem_of_getElem? hk)
  exact hstopped.runs hafter

/-- A job is canceled while its only address is waiting for a slot. -/
theorem cancel_stops_pair : ∃ as s, JobRun.PromptRuns pairBatch ({} : JobRun ℚ)
    ([.createJob 0, .register, .cancelRead, .cancelLookup 0, .cancelSignal 0] ++
      .cancelSet 0 1 :: as) s ∧ s.phase = .finished ∧ verifyCalls as = [] := by
  let s₁ : JobRun ℚ :=
    { entry := some { job := { status := .running, total := 2, createdAt := 0 } }
      registered := true
      phase := .dispatching ["u@b"]
      cancels := [.read] }
  let s : JobRun ℚ := { entry := pairCanceled.entry, canceled := true, phase := .finished }
  let before : List (JobAction ℚ) :=
    [.createJob 0, .register, .cancelRead, .cancelLookup 0, .cancelSignal 0]
  let after : List (JobAction ℚ) := [.stop, .join, .forget, .check]
  have hrun : JobRun.PromptRuns pairBatch {} (before ++ .cancelSet 0 1 :: after) s := by
    refine .cons ⟨trivial, rfl, rfl⟩ (.cons ⟨trivial, rfl, rfl⟩ ?_)
    rw [order_pair]
    refine .cons (t := s₁) ⟨trivial, rfl⟩ (.cons ⟨by simp [JobRun.Prompt, s₁], rfl, rfl⟩
      (.cons ⟨trivial, rfl, rfl⟩ (.cons ⟨by simp [JobRun.Prompt, s₁], .inr rfl, rfl⟩ ?_)))
    exact .cons ⟨trivial, "u@b", [], rfl, rfl, rfl⟩ (.cons ⟨trivial, rfl, rfl, rfl⟩
      (.cons ⟨trivial, rfl, rfl⟩ (.cons ⟨trivial, rfl, rfl⟩ (.nil _))))
  exact ⟨_, s, hrun, rfl, cancel_stops hrun⟩

/-- A call of the verifier starts after `Cancel` has returned, in three ways: `Cancel` came
    before the cancel function was registered, the loop took a free slot although its context
    was canceled, and a worker had its slot but had not made its call. -/
theorem verify_after_cancel :
    (∃ s, JobRun.Runs pairBatch ({} : JobRun ℚ)
      ([.createJob 0, .cancelRead, .cancelLookup 0] ++ .cancelSet 0 1 ::
        [.register, .dispatch, .verify 0 "u@b"]) s) ∧
    (∃ s, JobRun.Runs pairBatch ({} : JobRun ℚ)
      ([.createJob 0, .register, .cancelRead, .cancelLookup 0, .cancelSignal 0] ++
        .cancelSet 0 1 :: [.dispatch, .verify 0 "u@b"]) s) ∧
    ∃ s, JobRun.Runs pairBatch ({} : JobRun ℚ)
      ([.createJob 0, .register, .dispatch, .cancelRead, .cancelLookup 0, .cancelSignal 0] ++
        .cancelSet 0 1 :: [.verify 0 "u@b"]) s := by
  let s : JobRun ℚ :=
    { pairCanceled with
      registered := true
      phase := .dispatching []
      workers := [.verifying "u@b"] }
  -- a cancel before the registration, a slot taken after the cancel, and a worker that has not
  -- called yet
  refine ⟨⟨s, ?_⟩, ⟨{ s with canceled := true }, ?_⟩, ⟨{ s with canceled := true }, ?_⟩⟩
  · refine .cons ⟨rfl, rfl⟩ (.cons rfl (.cons ⟨rfl, rfl⟩ (.cons ⟨.inl rfl, rfl⟩
      (.cons ⟨rfl, rfl⟩ ?_))))
    rw [order_pair]
    exact .cons ⟨"u@b", [], rfl, by decide, rfl⟩ (.cons ⟨rfl, rfl⟩ (.nil _))
  · refine .cons ⟨rfl, rfl⟩ (.cons ⟨rfl, rfl⟩ (.cons rfl (.cons ⟨rfl, rfl⟩ (.cons ⟨rfl, rfl⟩
      (.cons ⟨.inr rfl, rfl⟩ ?_)))))
    rw [order_pair]
    exact .cons ⟨"u@b", [], rfl, by decide, rfl⟩ (.cons ⟨rfl, rfl⟩ (.nil _))
  · refine .cons ⟨rfl, rfl⟩ (.cons ⟨rfl, rfl⟩ ?_)
    rw [order_pair]
    exact .cons ⟨"u@b", [], rfl, by decide, rfl⟩ (.cons rfl (.cons ⟨rfl, rfl⟩
      (.cons ⟨rfl, rfl⟩ (.cons ⟨.inr rfl, rfl⟩ (.cons ⟨rfl, rfl⟩ (.nil _))))))

end Rcptto.Native
