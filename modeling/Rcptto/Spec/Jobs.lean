import Mathlib.Algebra.Group.Action.Defs
import Mathlib.Tactic.Abel
import Rcptto.ForStd.Multiset
import Rcptto.Native.Jobs

/-!
# Completeness of jobs

The rows of a job are grouped by address: `process` verifies each address once and records
the verdict under every label of the address. `Books` is the bookkeeping of an execution
without `Cancel`: where each address is, which results are recorded and which are still in
the hands of a worker. When nothing is left to do, every row has its result.

## Key results

- `rows_eq_bind`: the groups together are the rows
- `Books.step`: every step keeps the books
- `JobRun.progress`, `JobRun.Step.todo_lt`: a job never gets stuck, and it ends
- `job_complete`: what a job has done when its workers are done
-/

namespace Rcptto.Native

/-! ## Grouping -/

section Grouping

variable {lower : String → String} {rows : List Row} {row : Row} {key : String}

theorem group_snoc : group lower (rows ++ [row]) = (group lower rows).add lower row := by
  simp [group]

/-- The labels of an address, in the order of the rows. -/
theorem labels_group : ((group lower rows).byEmail key).getD [] =
    (rows.filter (lower ·.email = key)).map (·.label) := by
  induction rows using List.reverseRecOn with
  | nil => rfl
  | append_singleton rows row ih =>
    rw [group_snoc, List.filter_append, List.map_append, ← ih]
    by_cases hkey : lower row.email = key
    · subst hkey
      simp [Grouping.add]
    · simp [Grouping.add, Function.update_of_ne (Ne.symm hkey), hkey]

/-- An address has no entry as long as no row has it. -/
theorem isNone_group : ((group lower rows).byEmail key).isNone ↔
    ∀ row ∈ rows, lower row.email ≠ key := by
  induction rows using List.reverseRecOn with
  | nil => simp [group]
  | append_singleton rows row ih =>
    rw [group_snoc]
    by_cases hkey : lower row.email = key
    · subst hkey
      simp [Grouping.add]
    · simp [Grouping.add, Function.update_of_ne (Ne.symm hkey), hkey, ih, or_imp, forall_and]

/-- The addresses to verify are those of the rows. -/
theorem mem_order_group : key ∈ (group lower rows).order.map lower ↔
    ∃ row ∈ rows, lower row.email = key := by
  induction rows using List.reverseRecOn with
  | nil => simp [group]
  | append_singleton rows row ih =>
    rw [group_snoc, Grouping.add]
    dsimp only
    split
    · rw [List.map_append, List.mem_append, ih]
      simp [or_and_right, exists_or, eq_comm]
    · -- the address of the row has been seen before
      rename_i hseen
      rw [isNone_group] at hseen
      push Not at hseen
      obtain ⟨row', hmem, hrow'⟩ := hseen
      rw [ih]
      simp only [List.mem_append, List.mem_singleton, or_and_right, exists_or, exists_eq_left]
      constructor
      · exact .inl
      · rintro (h | rfl)
        · exact h
        · exact ⟨row', hmem, hrow'⟩

/-- Each address is verified once. -/
theorem nodup_order_group : ((group lower rows).order.map lower).Nodup := by
  induction rows using List.reverseRecOn with
  | nil => simp [group]
  | append_singleton rows row ih =>
    rw [group_snoc, Grouping.add]
    dsimp only
    -- the address is new, or it belongs to a group already
    split
    · rename_i hnew
      rw [List.map_append, List.nodup_append]
      refine ⟨ih, by simp, ?_⟩
      intro key hkey key' hkey'
      obtain ⟨row', hmem, hrow'⟩ := mem_order_group.mp hkey
      obtain rfl : key' = lower row.email := by simpa using hkey'
      rw [← hrow']
      exact isNone_group.mp hnew row' hmem
    · exact ih

end Grouping

namespace Batch

variable (b : Batch)

theorem nodup_order : (b.order.map b.lower).Nodup := nodup_order_group

/-- The addresses to verify are the distinct lower-cased addresses of the rows. -/
theorem map_order_perm :
    (b.order.map b.lower).Perm (b.rows.map (b.lower ·.email)).dedup := by
  rw [List.perm_ext_iff_of_nodup b.nodup_order (List.nodup_dedup _)]
  intro key
  rw [order, mem_order_group, List.mem_dedup, List.mem_map]

theorem order_ne_nil : b.order ≠ [] := by
  intro hnil
  have hperm := b.map_order_perm
  rw [hnil, List.map_nil, List.nil_perm, List.dedup_eq_nil, List.map_eq_nil_iff] at hperm
  exact b.rows_ne_nil hperm

theorem labels_eq (email : String) : b.labels email =
    (b.rows.filter (b.lower ·.email = b.lower email)).map (·.label) := labels_group

/-- The groups together are the rows: what is made of every row from its label and its
    lower-cased address is made of every address for each of its labels. -/
theorem rows_eq_bind {α : Type*} (f : String → String → α) :
    (b.order : Multiset String).bind (fun email =>
      ((b.labels email).map (f (b.lower email)) : Multiset α)) =
        (b.rows.map fun row => f (b.lower row.email) row.label : Multiset α) := by
  have hsplit := Multiset.bind_filter_eq (fun row : Row => b.lower row.email) b.nodup_order
    (s := (b.rows : Multiset Row)) fun row hrow => mem_order_group.mpr ⟨row, hrow, rfl⟩
  symm
  -- the rows are split by their address in lower case, which is how they are grouped
  calc (b.rows.map fun row => f (b.lower row.email) row.label : Multiset α)
      = ((b.rows : Multiset Row).map fun row => f (b.lower row.email) row.label) := rfl
    _ = ((b.order : Multiset String).map b.lower).bind (fun key =>
          ((b.rows : Multiset Row).filter (b.lower ·.email = key)).map
            fun row => f (b.lower row.email) row.label) := by
        conv_lhs => rw [← hsplit]
        rw [Multiset.map_bind]
        rfl
    _ = _ := by
        rw [Multiset.bind_map]
        refine Multiset.bind_congr fun email _ => ?_
        rw [b.labels_eq, List.map_map]
        show ((List.map _ _ : List α) : Multiset α) = _
        congr 1
        refine List.map_congr_left fun row hrow => ?_
        have hkey : b.lower row.email = b.lower email := by simpa using (List.mem_filter.mp hrow).2
        rw [hkey]
        rfl

end Batch

variable {F : Type} [OfScientific F] {b : Batch} {s s' : JobRun F} {a : JobAction F}
  {as : List (JobAction F)}

/-! ## Bookkeeping -/

/-- The results of one verdict, under each of the labels. -/
def recorded (v : Verdict F) (labels : List String) : Multiset (JobResult F) :=
  (labels : Multiset String).map (JobResult.mk · v)

namespace Worker

omit [OfScientific F]

/-- The address that the worker has no verdict for yet. -/
def address : Worker F → Multiset String
  | .starting email | .verifying email => {email}
  | _ => 0

/-- The address of a call of the verifier that has not returned. -/
def inFlight : Worker F → Multiset String
  | .verifying email => {email}
  | _ => 0

/-- The address of a call of the verifier that has not started. -/
def unstarted : Worker F → Multiset String
  | .starting email => {email}
  | _ => 0

/-- A worker has an address that is being verified or has not been yet. -/
theorem address_eq (w : Worker F) : w.address = w.inFlight + w.unstarted := by
  cases w with
  | starting | recording | leaving => exact (zero_add _).symm
  | verifying => exact (add_zero _).symm

/-- The results that the worker has still to record. -/
def pending : Worker F → Multiset (JobResult F)
  | .recording v labels => recorded v labels
  | _ => 0

end Worker

/-- The addresses that the loop of `process` has not come to yet. -/
def Phase.remaining (b : Batch) : Phase → List String
  | .creating | .registering => b.order
  | .dispatching rest => rest
  | _ => []

namespace JobRun

omit [OfScientific F]

/-- The workers, in any order. -/
def crew (s : JobRun F) : Multiset (Worker F) := s.workers

theorem countP_crew (s : JobRun F) : s.crew.countP (·.holding) = s.slots := by
  simp [crew, slots, Multiset.coe_countP]

/-- The recorded results. -/
def results (s : JobRun F) : List (JobResult F) := (s.entry.map (·.results)).getD []

end JobRun

/-- The books of an execution: every address is verified, with a worker or still to come;
    every call of the verifier has returned or is with a worker; and every result of a call
    that has returned is recorded or with a worker. -/
structure Books (b : Batch) (as : List (JobAction F)) (s : JobRun F) : Prop where
  addresses : ((verdicts as).map Prod.fst : Multiset String) + s.crew.bind Worker.address +
    (s.phase.remaining b : Multiset String) = (b.order : Multiset String)
  calls : (verifyCalls as : Multiset String) =
    ((verdicts as).map Prod.fst : Multiset String) + s.crew.bind Worker.inFlight
  results : (s.results : Multiset (JobResult F)) + s.crew.bind Worker.pending =
    (verdicts as : Multiset (String × Verdict F)).bind fun p => recorded p.2 (b.labels p.1)

/-- The books balance after a step if what it takes from some workers and from the addresses
    to come is with other workers, or has been recorded. -/
theorem Books.exchange (h : Books b as s) {W U R : Multiset (Worker F)} {C : List String}
    {V : List (String × Verdict F)} {N : List (JobResult F)} (hs : s.crew = W + R)
    (hs' : s'.crew = U + R) (hcalls : verifyCalls [a] = C) (hverdicts : verdicts [a] = V)
    (hresults : s'.results = s.results ++ N)
    (haddr : (V.map Prod.fst : Multiset String) + U.bind Worker.address +
      (s'.phase.remaining b : Multiset String) =
        W.bind Worker.address + (s.phase.remaining b : Multiset String))
    (hcall : (C : Multiset String) + W.bind Worker.inFlight =
      (V.map Prod.fst : Multiset String) + U.bind Worker.inFlight)
    (hres : (N : Multiset (JobResult F)) + U.bind Worker.pending = W.bind Worker.pending +
      (V : Multiset (String × Verdict F)).bind fun p => recorded p.2 (b.labels p.1)) :
    Books b (as ++ [a]) s' := by
  have hcalls' : verifyCalls (as ++ [a]) = verifyCalls as ++ C := by
    rw [← hcalls, verifyCalls, List.filterMap_append]
    rfl
  have hverdicts' : verdicts (as ++ [a]) = verdicts as ++ V := by
    rw [← hverdicts, verdicts, List.filterMap_append]
    rfl
  -- the workers in `R` are not part of the exchange, and each sum is rearranged around them
  obtain ⟨haddr₀, hcall₀, hres₀⟩ := h
  rw [hs, Multiset.add_bind] at haddr₀ hcall₀ hres₀
  refine ⟨?_, ?_, ?_⟩
  · rw [hverdicts', hs', List.map_append, ← Multiset.coe_add, Multiset.add_bind, ← haddr₀]
    calc _ = ((verdicts as).map Prod.fst : Multiset String) + R.bind Worker.address +
          ((V.map Prod.fst : Multiset String) + U.bind Worker.address +
            (s'.phase.remaining b : Multiset String)) := by abel
      _ = _ := by rw [haddr]; abel
  · rw [hcalls', hverdicts', hs', List.map_append, ← Multiset.coe_add, ← Multiset.coe_add,
      Multiset.add_bind, hcall₀]
    calc _ = ((verdicts as).map Prod.fst : Multiset String) + R.bind Worker.inFlight +
          ((C : Multiset String) + W.bind Worker.inFlight) := by abel
      _ = _ := by rw [hcall]; abel
  · rw [hverdicts', hresults, hs', ← Multiset.coe_add, ← Multiset.coe_add, Multiset.add_bind,
      Multiset.add_bind, ← hres₀]
    calc _ = (s.results : Multiset (JobResult F)) + R.bind Worker.pending +
          ((N : Multiset (JobResult F)) + U.bind Worker.pending) := by abel
      _ = _ := by rw [hres]; abel

/-! ## The shape of a state -/

/-- `process` has returned. -/
def Phase.over : Phase → Bool
  | .releasing | .checking | .marking | .finished => true
  | _ => false

/-- The job counts its results, and it is completed when there is one for every row. -/
structure JobEntry.Counted (b : Batch) (e : JobEntry F) : Prop where
  total : e.job.total = b.rows.length
  done : e.job.done = e.results.length
  status : e.job.status = if e.job.done < e.job.total then .running else .completed

omit [OfScientific F] in
/-- `AppendResult` counts the result, and completes the job with the last one. -/
theorem JobEntry.Counted.appendResult {e : JobEntry F} (h : e.Counted b) (r : JobResult F)
    (now : Int) : (e.appendResult r now).Counted b := by
  have hne : e.job.status ≠ .canceled := by
    rw [h.status]
    split <;> simp
  unfold JobEntry.appendResult
  dsimp only
  -- this was the last result, or there are more to come
  split
  · rename_i hdone
    refine ⟨h.total, ?_, ?_⟩
    · simp [h.done]
    · rw [if_neg (by simpa using hdone.2)]
  · rename_i hdone
    have hlt : e.job.done + 1 < e.job.total := by simpa [hne] using hdone
    refine ⟨h.total, ?_, ?_⟩
    · simp [h.done]
    · rw [if_pos hlt, h.status, if_pos (by omega)]

/-- What holds of every state of a job that is not canceled. -/
structure Shape (b : Batch) (s : JobRun F) : Prop where
  slots : s.crew.countP (·.holding) ≤ b.concurrency
  creating : s.phase = .creating → s.entry = none ∧ s.workers = []
  entry : s.phase ≠ .creating → ∃ e, s.entry = some e ∧ e.Counted b
  ended : s.phase.over = true → s.workers = []
  live : s.canceled = true → s.phase.over = true

namespace Shape

omit [OfScientific F]

/-- A worker that is under way. -/
theorem of_worker {k : Nat} {w : Worker F} (h : Shape b s) (hw : s.workers[k]? = some w) :
    s.phase ≠ .creating ∧ s.phase.over = false := by
  have hne : s.workers ≠ [] := fun hnil => by simp [hnil] at hw
  refine ⟨fun hp => hne (h.creating hp).2, ?_⟩
  cases hover : s.phase.over with
  | false => rfl
  | true => exact absurd (h.ended hover) hne

/-- A worker that moves on, and at most appends to the entry of the job. -/
theorem of_set {k : Nat} {w w' : Worker F} (h : Shape b s) (hw : s.workers[k]? = some w)
    (hhold : w'.holding = true → w.holding = true) {entry : Option (JobEntry F)}
    (hentry : ∃ e, entry = some e ∧ e.Counted b) :
    Shape b { s with entry := entry, workers := s.workers.set k w' } := by
  obtain ⟨hnew, hover⟩ := h.of_worker hw
  refine ⟨?_, fun hp => absurd hp hnew, fun _ => hentry, fun ho => ?_, h.live⟩
  · have hslots := h.slots
    rw [JobRun.crew, Multiset.coe_eq_cons_eraseIdx hw, Multiset.countP_cons] at hslots
    show (s.workers.set k w' : Multiset (Worker F)).countP (·.holding) ≤ _
    rw [Multiset.coe_set_eq_cons_eraseIdx hw, Multiset.countP_cons]
    -- a worker gives its slot back or keeps it; it does not take one
    split_ifs at hslots ⊢ with hw' hw
    · exact hslots
    · exact absurd (hhold hw') hw
    · omega
    · exact hslots
  · exact absurd (hover.symm.trans ho) Bool.false_ne_true

/-- The goroutine of the job moves on. -/
theorem of_phase {registered canceled : Bool} {phase : Phase} (h : Shape b s)
    (hnew : s.phase ≠ .creating) (hphase : phase ≠ .creating)
    (hover : phase.over = true → s.workers = [])
    (hlive : canceled = true → phase.over = true) :
    Shape b { s with registered := registered, canceled := canceled, phase := phase } :=
  ⟨h.slots, fun hp => absurd hp hphase, fun _ => h.entry hnew, hover, hlive⟩

/-- The context is not canceled as long as the job is not over. -/
theorem canceled_eq_false (h : Shape b s) (hover : s.phase.over = false) : s.canceled = false := by
  cases hc : s.canceled with
  | false => rfl
  | true => exact (h.live hc).symm.trans hover

end Shape

/-- Every step of a job that is not canceled keeps its shape. -/
theorem Shape.step (h : Shape b s) (hstep : s.Step b a s') (ha : a.isCancel = false)
    (hmark : s.phase ≠ .marking) : Shape b s' := by
  cases a with
  | createJob now =>
    obtain ⟨hp, rfl⟩ := hstep
    have hlive := h.canceled_eq_false (by rw [hp]; rfl)
    refine ⟨h.slots, by simp, fun _ => ⟨_, rfl, rfl, rfl, ?_⟩, by simp [Phase.over],
      by simp [hlive]⟩
    exact (if_pos (List.length_pos_iff.mpr b.rows_ne_nil)).symm
  | register =>
    obtain ⟨hp, rfl⟩ := hstep
    have hlive := h.canceled_eq_false (by rw [hp]; rfl)
    exact h.of_phase (by simp [hp]) (by simp) (by simp [Phase.over]) (by simp [hlive])
  | dispatch =>
    obtain ⟨email, rest, hp, hslots, rfl⟩ := hstep
    have hlive := h.canceled_eq_false (by rw [hp]; rfl)
    refine ⟨?_, by simp, fun _ => h.entry (by simp [hp]), by simp [Phase.over], by simp [hlive]⟩
    show ((s.workers ++ [.starting email] : List (Worker F)) : Multiset (Worker F)).countP
      (·.holding) ≤ _
    rw [← Multiset.coe_add, Multiset.countP_add]
    rw [← s.countP_crew] at hslots
    exact hslots
  | stop =>
    -- the context is not canceled while addresses are left
    obtain ⟨email, rest, hp, hc, rfl⟩ := hstep
    have hlive := h.canceled_eq_false (by rw [hp]; rfl)
    exact absurd (hc.symm.trans hlive) (by simp)
  | drain =>
    obtain ⟨hp, rfl⟩ := hstep
    have hlive := h.canceled_eq_false (by rw [hp]; rfl)
    exact h.of_phase (by simp [hp]) (by simp) (by simp [Phase.over]) (by simp [hlive])
  | verify k email =>
    obtain ⟨hw, rfl⟩ := hstep
    exact h.of_set hw (fun _ => rfl) (h.entry (h.of_worker hw).1)
  | verified k email res now =>
    obtain ⟨hw, rfl⟩ := hstep
    exact h.of_set hw (fun _ => rfl) (h.entry (h.of_worker hw).1)
  | append k now =>
    obtain ⟨v, label, labels, hw, rfl⟩ := hstep
    obtain ⟨e, he, hcounted⟩ := h.entry (h.of_worker hw).1
    exact h.of_set hw (fun _ => rfl) ⟨_, by rw [he]; rfl, hcounted.appendResult _ now⟩
  | release k =>
    obtain ⟨v, hw, rfl⟩ := hstep
    exact h.of_set hw (fun _ => rfl) (h.entry (h.of_worker hw).1)
  | exit k =>
    obtain ⟨hw, rfl⟩ := hstep
    obtain ⟨hnew, hover⟩ := h.of_worker hw
    refine ⟨?_, fun hp => absurd hp hnew, fun _ => h.entry hnew,
      fun ho => absurd (hover.symm.trans ho) Bool.false_ne_true, h.live⟩
    have hslots := h.slots
    rw [JobRun.crew, Multiset.coe_eq_cons_eraseIdx hw, Multiset.countP_cons] at hslots
    exact (Nat.le_add_right _ _).trans hslots
  | join =>
    obtain ⟨hp, hnil, rfl⟩ := hstep
    exact h.of_phase (by simp [hp]) (by simp) (fun _ => hnil) (fun _ => rfl)
  | forget =>
    obtain ⟨hp, rfl⟩ := hstep
    exact h.of_phase (by simp [hp]) (by simp) (fun _ => h.ended (by rw [hp]; rfl)) (fun _ => rfl)
  | check =>
    obtain ⟨hp, rfl⟩ := hstep
    refine h.of_phase (by simp [hp]) ?_ (fun _ => h.ended (by rw [hp]; rfl)) fun _ => ?_
    · split <;> simp
    · split <;> rfl
  | mark now => exact absurd hstep.1 hmark
  | cancelRead | cancelLookup | cancelSignal | cancelSet => cases ha

/-! ## Every step keeps the books -/

/-- A step that leaves the workers and the addresses to come alone. -/
theorem Books.of_phase (h : Books b as s) (hworkers : s'.workers = s.workers)
    (hresults : s'.results = s.results)
    (hremaining : s'.phase.remaining b = s.phase.remaining b) (hcalls : verifyCalls [a] = [])
    (hverdicts : verdicts [a] = []) : Books b (as ++ [a]) s' := by
  refine h.exchange (W := 0) (U := 0) (R := s.crew) (N := []) (zero_add _).symm ?_ hcalls hverdicts
    (by simp [hresults]) (by simp [hremaining]) (by simp) (by simp)
  rw [zero_add, JobRun.crew, hworkers]
  rfl

/-- A step of one worker. -/
theorem Books.of_set {k : Nat} {w w' : Worker F} {C : List String}
    {V : List (String × Verdict F)} {N : List (JobResult F)} (h : Books b as s)
    (hw : s.workers[k]? = some w) (hworkers : s'.workers = s.workers.set k w')
    (hphase : s'.phase = s.phase) (hcalls : verifyCalls [a] = C) (hverdicts : verdicts [a] = V)
    (hresults : s'.results = s.results ++ N)
    (haddr : (V.map Prod.fst : Multiset String) + w'.address = w.address)
    (hcall : (C : Multiset String) + w.inFlight =
      (V.map Prod.fst : Multiset String) + w'.inFlight)
    (hres : (N : Multiset (JobResult F)) + w'.pending = w.pending +
      (V : Multiset (String × Verdict F)).bind fun p => recorded p.2 (b.labels p.1)) :
    Books b (as ++ [a]) s' := by
  -- one worker is exchanged for another, and the rest of the crew stays
  refine h.exchange (W := {w}) (U := {w'}) (R := (s.workers.eraseIdx k : Multiset (Worker F)))
    ?_ ?_ hcalls hverdicts hresults ?_ ?_ ?_
  · rw [JobRun.crew, Multiset.coe_eq_cons_eraseIdx hw, Multiset.singleton_add]
  · rw [JobRun.crew, hworkers, Multiset.coe_set_eq_cons_eraseIdx hw, Multiset.singleton_add]
  · rw [Multiset.singleton_bind, Multiset.singleton_bind, haddr, hphase]
  · rw [Multiset.singleton_bind, Multiset.singleton_bind, hcall]
  · rw [Multiset.singleton_bind, Multiset.singleton_bind, hres]

/-- Every step of a job that is not canceled keeps the books. -/
theorem Books.step (h : Books b as s) (hshape : Shape b s) (hstep : s.Step b a s')
    (ha : a.isCancel = false) (hmark : s.phase ≠ .marking) : Books b (as ++ [a]) s' := by
  cases a with
  | createJob now =>
    obtain ⟨hp, rfl⟩ := hstep
    refine h.of_phase rfl ?_ (by rw [hp]; rfl) rfl rfl
    rw [JobRun.results, JobRun.results, (hshape.creating hp).1]
    rfl
  | register =>
    obtain ⟨hp, rfl⟩ := hstep
    exact h.of_phase rfl rfl (by rw [hp]; rfl) rfl rfl
  | dispatch =>
    -- the next address goes to a new worker
    obtain ⟨email, rest, hp, -, rfl⟩ := hstep
    refine h.exchange (W := 0) (U := {.starting email}) (R := s.crew) (V := []) (N := [])
      (zero_add _).symm ?_ rfl rfl (List.append_nil _).symm ?_ rfl rfl
    · show ((s.workers ++ [.starting email] : List (Worker F)) : Multiset (Worker F)) = _
      rw [← Multiset.coe_add, add_comm]
      rfl
    · rw [hp]
      simp [Worker.address, Phase.remaining]
  | stop =>
    obtain ⟨email, rest, hp, hc, rfl⟩ := hstep
    have hlive := hshape.canceled_eq_false (by rw [hp]; rfl)
    exact absurd (hc.symm.trans hlive) (by simp)
  | drain =>
    obtain ⟨hp, rfl⟩ := hstep
    exact h.of_phase rfl rfl (by rw [hp]; rfl) rfl rfl
  | verify k email =>
    obtain ⟨hw, rfl⟩ := hstep
    exact h.of_set hw rfl rfl rfl rfl (List.append_nil _).symm rfl rfl rfl
  | verified k email res now =>
    -- the verdict is entered, and its results are with the worker
    obtain ⟨hw, rfl⟩ := hstep
    refine h.of_set (V := [(email, outcome email now res)]) hw rfl rfl rfl rfl
      (List.append_nil _).symm rfl rfl ?_
    simp [Worker.pending]
  | append k now =>
    obtain ⟨v, label, labels, hw, rfl⟩ := hstep
    obtain ⟨e, he, -⟩ := hshape.entry (hshape.of_worker hw).1
    refine h.of_set (V := []) (N := [{ label := label, verdict := v }]) hw rfl rfl rfl rfl ?_ rfl
      rfl
      ?_
    · rw [JobRun.results, JobRun.results, he]
      rfl
    · simp [Worker.pending, recorded]
  | release k =>
    obtain ⟨v, hw, rfl⟩ := hstep
    exact h.of_set hw rfl rfl rfl rfl (List.append_nil _).symm rfl rfl rfl
  | exit k =>
    obtain ⟨hw, rfl⟩ := hstep
    refine h.exchange (W := {.leaving}) (U := 0)
      (R := (s.workers.eraseIdx k : Multiset (Worker F))) (V := []) (N := []) ?_ (zero_add _).symm
      rfl rfl
      (List.append_nil _).symm ?_ rfl rfl
    · rw [JobRun.crew, Multiset.coe_eq_cons_eraseIdx hw, Multiset.singleton_add]
    · simp [Worker.address]
  | join =>
    obtain ⟨hp, -, rfl⟩ := hstep
    exact h.of_phase rfl rfl (by rw [hp]; rfl) rfl rfl
  | forget =>
    obtain ⟨hp, rfl⟩ := hstep
    exact h.of_phase rfl rfl (by rw [hp]; rfl) rfl rfl
  | check =>
    obtain ⟨hp, rfl⟩ := hstep
    refine h.of_phase rfl rfl ?_ rfl rfl
    rw [hp]
    dsimp only
    split <;> rfl
  | mark now => exact absurd hstep.1 hmark
  | cancelRead | cancelLookup | cancelSignal | cancelSet => cases ha

/-! ## When the workers are done -/

/-- No address is left, and the workers are done. -/
def JobRun.Idle (b : Batch) (s : JobRun F) : Prop := s.phase.remaining b = [] ∧ s.workers = []

omit [OfScientific F] in
/-- When the job is over, nothing is left and all workers are done. -/
theorem Shape.idle (h : Shape b s) (hover : s.phase.over = true) : s.Idle b := by
  refine ⟨?_, h.ended hover⟩
  cases hp : s.phase with
  | creating | registering | dispatching | waiting =>
    rw [hp] at hover
    cases hover
  | releasing | checking | marking | finished => rfl

/-- What is recorded for an error of the verifier: nothing is known about the address. -/
def failedVerdict (email : String) (now : Int) : Verdict F where
  email := email
  normalized := ""
  status := .unknown
  subStatus := .temporaryFailure
  confidence := 0.0
  checks := {}
  provider := ""
  engine := ""
  egressID := ""
  checkedAt := now

/-- The verdict of an address: what the call of the verifier for it has returned, or the one for its
    error. -/
def verdictOf (lower : String → String) (as : List (JobAction F)) (key : String) :
    Option (Verdict F) :=
  as.findSome? fun
    | .verified _ email res now =>
      if lower email = key then some (res.getD (failedVerdict email now)) else none
    | _ => none

/-- That is the verdict which a worker records. -/
theorem verdictOf_eq_find (lower : String → String) (as : List (JobAction F)) (key : String) :
    verdictOf lower as key = ((verdicts as).find? (lower ·.1 = key)).map Prod.snd := by
  have houtcome : ∀ email now (res : Option (Verdict F)),
      outcome email now res = res.getD (failedVerdict email now) := by
    intro email now res
    cases res <;> rfl
  -- by induction on the steps, of which only the return of a call has a verdict
  induction as with
  | nil => rfl
  | cons a as ih =>
    rw [verdictOf, List.findSome?_cons, verdicts, List.filterMap_cons]
    cases a with
    | verified k email res now =>
      dsimp only
      rw [List.find?_cons]
      by_cases hkey : lower email = key
      · simp [hkey, houtcome]
      · simp only [hkey, decide_false, if_false]
        exact ih
    | _ => exact ih

/-- As long as no address is verified twice, every verdict is the one of its address. -/
theorem verdictOf_eq {lower : String → String} {p : String × Verdict F}
    (hnodup : ((verdicts as).map (lower ·.1)).Nodup) (hp : p ∈ verdicts as) :
    verdictOf lower as (lower p.1) = some p.2 := by
  obtain ⟨q, hq⟩ : ∃ q, (verdicts as).find? (lower ·.1 = lower p.1) = some q := by
    rw [← Option.isSome_iff_exists, List.find?_isSome]
    exact ⟨p, hp, by simp⟩
  have hkey : lower q.1 = lower p.1 := by simpa using List.find?_some hq
  have hqp : q = p := List.inj_on_of_nodup_map hnodup (List.mem_of_find?_eq_some hq) hp hkey
  rw [verdictOf_eq_find, hq, hqp]
  rfl

namespace Books

/-- Every address has been verified, by one call that has returned. -/
theorem of_idle (h : Books b as s) (hidle : s.Idle b) :
    ((verdicts as).map Prod.fst).Perm b.order ∧ (verifyCalls as).Perm b.order ∧
      (s.results : Multiset (JobResult F)) = (verdicts as : Multiset (String × Verdict F)).bind
        fun p => recorded p.2 (b.labels p.1) := by
  obtain ⟨hremaining, hworkers⟩ := hidle
  have hcrew : s.crew = 0 := by
    rw [JobRun.crew, hworkers]
    rfl
  obtain ⟨haddr, hcall, hres⟩ := h
  rw [hcrew, Multiset.zero_bind, add_zero] at haddr hcall hres
  rw [hremaining, Multiset.coe_nil, add_zero] at haddr
  rw [haddr] at hcall
  exact ⟨Multiset.coe_eq_coe.mp haddr, Multiset.coe_eq_coe.mp hcall, hres⟩

/-- Every row has one result, with its label and the verdict of its address, and there are
    no others. -/
theorem results_perm (h : Books b as s) (hidle : s.Idle b) :
    (s.results.map fun r => (r.label, some r.verdict)).Perm
      (b.rows.map fun row => (row.label, verdictOf b.lower as (b.lower row.email))) := by
  obtain ⟨haddr, -, hres⟩ := h.of_idle hidle
  -- each address was verified once, so that its verdict is the one of the history
  have hnodup : ((verdicts as).map (b.lower ·.1)).Nodup := by
    have := (haddr.map b.lower).nodup_iff.mpr b.nodup_order
    rwa [List.map_map] at this
  apply Multiset.coe_eq_coe.mp
  calc (s.results.map fun r => (r.label, some r.verdict) : Multiset (String × Option (Verdict F)))
      = (s.results : Multiset (JobResult F)).map fun r => (r.label, some r.verdict) := rfl
    _ = (verdicts as : Multiset (String × Verdict F)).bind fun p =>
          ((b.labels p.1).map fun label => (label, some p.2) : List _) := by
        rw [hres, Multiset.map_bind]
        refine Multiset.bind_congr fun p _ => ?_
        rw [recorded, Multiset.map_map]
        rfl
    _ = (verdicts as : Multiset (String × Verdict F)).bind fun p =>
          ((b.labels p.1).map fun label =>
            (label, verdictOf b.lower as (b.lower p.1)) : List _) := by
        refine Multiset.bind_congr fun p hp => ?_
        rw [verdictOf_eq hnodup hp]
    _ = ((verdicts as).map Prod.fst : Multiset String).bind fun email =>
          ((b.labels email).map fun label => (label, verdictOf b.lower as (b.lower email)) :
            List _) := by
        rw [← Multiset.map_coe, Multiset.bind_map]
    _ = _ := by
        rw [Multiset.coe_eq_coe.mpr haddr]
        exact b.rows_eq_bind fun key label => (label, verdictOf b.lower as key)

/-- The job is completed. -/
theorem status_eq (h : Books b as s) (hshape : Shape b s) (hidle : s.Idle b) :
    ∃ e, s.entry = some e ∧ e.results = s.results ∧ e.job.done = b.rows.length ∧
      e.job.total = b.rows.length ∧ e.job.status = .completed := by
  -- a job without an entry has all of its addresses left, and there is one
  have hnew : s.phase ≠ .creating := by
    intro hp
    have hnil : b.order = [] := by
      have := hidle.1
      rwa [hp] at this
    exact b.order_ne_nil hnil
  obtain ⟨e, he, hcounted⟩ := hshape.entry hnew
  have hresults : s.results = e.results := by
    rw [JobRun.results, he]
    rfl
  have hlength := (h.results_perm hidle).length_eq
  rw [List.length_map, List.length_map, hresults, ← hcounted.done] at hlength
  refine ⟨e, he, hresults.symm, hlength, hcounted.total, ?_⟩
  rw [hcounted.status, if_neg (by rw [hlength, hcounted.total]; exact Nat.lt_irrefl _)]

end Books

/-! ## Executions without `Cancel` -/

/-- `finish` finds the job completed and does not touch it. -/
theorem JobRun.Step.phase_ne_marking (hstep : s.Step b a s') (hshape : Shape b s)
    (hbooks : Books b as s) (ha : a.isCancel = false) (hmark : s.phase ≠ .marking) :
    s'.phase ≠ .marking := by
  -- `finish` marks a job only if it is not completed, which it is by then
  cases a with
  | createJob | register | drain | join | forget | mark =>
    simp only [JobRun.Step] at hstep
    simp [hstep]
  | dispatch | stop =>
    obtain ⟨email, rest, hp, -, rfl⟩ := hstep
    simp
  | verify | verified | exit =>
    obtain ⟨-, rfl⟩ := hstep
    exact hmark
  | append =>
    obtain ⟨v, label, labels, -, rfl⟩ := hstep
    exact hmark
  | release =>
    obtain ⟨v, -, rfl⟩ := hstep
    exact hmark
  | check =>
    obtain ⟨hp, rfl⟩ := hstep
    obtain ⟨e, he, -, -, -, hstatus⟩ := hbooks.status_eq hshape (hshape.idle (by rw [hp]; rfl))
    simp [he, hstatus]
  | cancelRead | cancelLookup | cancelSignal | cancelSet => cases ha

/-- The books of a whole execution. -/
theorem JobRun.Runs.books (h : JobRun.Runs b {} as s) (hno : ∀ a ∈ as, a.isCancel = false) :
    Shape b s ∧ Books b as s ∧ s.phase ≠ .marking := by
  -- by induction on the steps, with all three together: each of them needs the others
  induction as using List.reverseRecOn generalizing s with
  | nil =>
    obtain rfl := Run.nil_iff.mp h
    refine ⟨⟨Nat.zero_le _, fun _ => ⟨rfl, rfl⟩, fun hp => absurd rfl hp, fun _ => rfl,
        fun hc => ?_⟩,
      ⟨?_, rfl, rfl⟩, by simp⟩
    · cases hc
    · simp [verdicts, JobRun.crew, Phase.remaining]
  | append_singleton as a ih =>
    obtain ⟨t, hrun, hstep⟩ := Run.snoc_iff.mp h
    obtain ⟨hshape, hbooks, hmark⟩ := ih hrun fun a' ha' => hno a' (by simp [ha'])
    have ha : a.isCancel = false := hno a (by simp)
    exact ⟨hshape.step hstep ha hmark, hbooks.step hshape hstep ha hmark,
      hstep.phase_ne_marking hshape hbooks ha hmark⟩

/-! ## Progress and termination -/

/-- The number of steps that are left for a worker. -/
def Worker.todo (b : Batch) : Worker F → Nat
  | .starting email => 4 + (b.labels email).length
  | .verifying email => 3 + (b.labels email).length
  | .recording _ labels => 2 + labels.length
  | .leaving => 1

/-- The number of steps that an address takes which has no worker yet. -/
def Batch.cost (b : Batch) (email : String) : Nat := 5 + (b.labels email).length

/-- The number of steps that are left for the goroutine, with those of the workers that it
    will start. -/
def Phase.todo (b : Batch) : Phase → Nat
  | .creating => (b.order.map b.cost).sum + 7
  | .registering => (b.order.map b.cost).sum + 6
  | .dispatching rest => (rest.map b.cost).sum + 5
  | .waiting => 4
  | .releasing => 3
  | .checking => 2
  | .marking => 1
  | .finished => 0

/-- A bound on the number of steps that are left. -/
def JobRun.todo (b : Batch) (s : JobRun F) : Nat :=
  s.phase.todo b + (s.crew.map (Worker.todo b)).sum

omit [OfScientific F] in
/-- A step of one worker. -/
theorem JobRun.todo_set {k : Nat} {w w' : Worker F} (hw : s.workers[k]? = some w)
    (hlt : w'.todo b < w.todo b) {entry : Option (JobEntry F)} :
    ({ s with entry := entry, workers := s.workers.set k w' } : JobRun F).todo b < s.todo b := by
  show s.phase.todo b + ((s.workers.set k w' : Multiset (Worker F)).map (Worker.todo b)).sum <
    s.phase.todo b + ((s.workers : Multiset (Worker F)).map (Worker.todo b)).sum
  rw [Multiset.coe_eq_cons_eraseIdx hw, Multiset.coe_set_eq_cons_eraseIdx hw, Multiset.map_cons,
    Multiset.map_cons, Multiset.sum_cons, Multiset.sum_cons]
  omega

omit [OfScientific F] in
/-- A step of the goroutine. -/
theorem JobRun.todo_phase (hworkers : s'.workers = s.workers)
    (hlt : s'.phase.todo b < s.phase.todo b) : s'.todo b < s.todo b := by
  unfold JobRun.todo JobRun.crew
  rw [hworkers]
  omega

/-- Every step brings the job closer to its end. -/
theorem JobRun.Step.todo_lt (hstep : s.Step b a s') (ha : a.isCancel = false) :
    s'.todo b < s.todo b := by
  cases a with
  | createJob | register | drain | forget | mark =>
    obtain ⟨hp, rfl⟩ := hstep
    exact todo_phase rfl (by simp [hp, Phase.todo])
  | join =>
    obtain ⟨hp, -, rfl⟩ := hstep
    exact todo_phase rfl (by simp [hp, Phase.todo])
  | dispatch =>
    obtain ⟨email, rest, hp, -, rfl⟩ := hstep
    -- the address goes from the goroutine to a worker, where less is left to do for it
    show Phase.todo b (.dispatching rest) +
        (((s.workers ++ [.starting email] : List (Worker F)) : Multiset (Worker F)).map
          (Worker.todo b)).sum < s.phase.todo b + (s.crew.map (Worker.todo b)).sum
    rw [hp, ← Multiset.coe_add, Multiset.map_add, Multiset.sum_add]
    simp only [Phase.todo, List.map_cons, List.sum_cons, Batch.cost, Multiset.coe_singleton,
      Multiset.map_singleton, Multiset.sum_singleton, Worker.todo, JobRun.crew]
    omega
  | stop =>
    obtain ⟨email, rest, hp, -, rfl⟩ := hstep
    exact todo_phase rfl (by simp only [hp, Phase.todo]; omega)
  | verify =>
    obtain ⟨hw, rfl⟩ := hstep
    exact todo_set hw (by simp only [Worker.todo]; omega)
  | verified =>
    obtain ⟨hw, rfl⟩ := hstep
    exact todo_set hw (by simp only [Worker.todo]; omega)
  | append =>
    obtain ⟨v, label, labels, hw, rfl⟩ := hstep
    exact todo_set hw (by simp only [Worker.todo, List.length_cons]; omega)
  | release =>
    obtain ⟨v, hw, rfl⟩ := hstep
    exact todo_set hw (by simp only [Worker.todo, List.length_nil]; omega)
  | exit k =>
    obtain ⟨hw, rfl⟩ := hstep
    show s.phase.todo b + ((s.workers.eraseIdx k : Multiset (Worker F)).map (Worker.todo b)).sum <
      s.phase.todo b + ((s.workers : Multiset (Worker F)).map (Worker.todo b)).sum
    rw [Multiset.coe_eq_cons_eraseIdx hw, Multiset.map_cons, Multiset.sum_cons]
    simp only [Worker.todo]
    omega
  | check =>
    obtain ⟨hp, rfl⟩ := hstep
    refine todo_phase rfl ?_
    rw [hp]
    dsimp only
    split <;> simp [Phase.todo]
  | cancelRead | cancelLookup | cancelSignal | cancelSet => cases ha

/-- The steps of a job that are made and left, for a job that is not canceled. -/
theorem JobRun.Runs.length_add_todo_le {s₀ : JobRun F} (h : JobRun.Runs b s₀ as s)
    (hno : ∀ a ∈ as, a.isCancel = false) : as.length + s.todo b ≤ s₀.todo b := by
  -- the last step is split off; each one leaves less to do
  induction as using List.reverseRecOn generalizing s with
  | nil =>
    obtain rfl := Run.nil_iff.mp h
    simp
  | append_singleton as a ih =>
    obtain ⟨t, hrun, hstep⟩ := Run.snoc_iff.mp h
    have hle := ih hrun fun a' ha' => hno a' (by simp [ha'])
    have hlt := hstep.todo_lt (hno a (by simp))
    rw [List.length_append, List.length_singleton]
    omega

omit [OfScientific F] in
/-- The work of a job that has not started: five steps for each address, one for each row,
    and seven for the goroutine. -/
theorem JobRun.todo_start : ({} : JobRun F).todo b = 5 * b.order.length + b.rows.length + 7 := by
  -- every row has its label under one address
  have hrows := congrArg Multiset.card (b.rows_eq_bind fun _ label => label)
  simp only [Multiset.card_bind, Multiset.map_coe, Multiset.sum_coe, Function.comp_def,
    Multiset.coe_card, List.length_map] at hrows
  show (b.order.map b.cost).sum + 7 + 0 = _
  have hcost : (b.order.map b.cost).sum =
      (b.order.map fun _ => 5).sum + (b.order.map fun email => (b.labels email).length).sum :=
    List.sum_map_add
  rw [hcost, hrows, List.map_const', List.sum_replicate]
  simp only [smul_eq_mul]
  omega

/-- A worker can always take its next step. -/
theorem JobRun.exists_worker_step {k : Nat} {w : Worker F} (b : Batch)
    (hw : s.workers[k]? = some w) : ∃ a s', a.isCancel = false ∧ s.Step b a s' := by
  cases w with
  | starting email => exact ⟨.verify k email, _, rfl, hw, rfl⟩
  | verifying email => exact ⟨.verified k email none 0, _, rfl, hw, rfl⟩
  | recording v labels =>
    cases labels with
    | nil => exact ⟨.release k, _, rfl, v, hw, rfl⟩
    | cons label labels => exact ⟨.append k 0, _, rfl, v, label, labels, hw, rfl⟩
  | leaving => exact ⟨.exit k, _, rfl, hw, rfl⟩

/-- A job that is not finished can always go on. -/
theorem JobRun.progress (b : Batch) (s : JobRun F) (hs : s.phase ≠ .finished) :
    ∃ a s', a.isCancel = false ∧ s.Step b a s' := by
  cases hp : s.phase with
  | creating => exact ⟨.createJob 0, _, rfl, hp, rfl⟩
  | registering => exact ⟨.register, _, rfl, hp, rfl⟩
  | dispatching rest =>
    cases rest with
    | nil => exact ⟨.drain, _, rfl, hp, rfl⟩
    | cons email rest =>
      by_cases hslots : s.slots < b.concurrency
      · exact ⟨.dispatch, _, rfl, email, rest, hp, hslots, rfl⟩
      · -- all slots are in use, so there is a worker
        have hpos : 0 < s.workers.countP Worker.holding :=
          lt_of_lt_of_le b.concurrency_pos (not_lt.mp hslots)
        obtain ⟨w, hmem, -⟩ := List.countP_pos_iff.mp hpos
        obtain ⟨k, hk⟩ := List.getElem?_of_mem hmem
        exact exists_worker_step b hk
  | waiting =>
    cases hworkers : s.workers with
    | nil => exact ⟨.join, _, rfl, hp, hworkers, rfl⟩
    | cons w ws => exact exists_worker_step (k := 0) (w := w) b (by rw [hworkers]; rfl)
  | releasing => exact ⟨.forget, _, rfl, hp, rfl⟩
  | checking => exact ⟨.check, _, rfl, hp, rfl⟩
  | marking => exact ⟨.mark 0, _, rfl, hp, rfl⟩
  | finished => exact absurd hp hs

/-! ## Completeness -/

/-- The number of calls of the verifier in flight. -/
def JobRun.callsInFlight (s : JobRun F) : Nat :=
  s.workers.countP fun
    | .verifying _ => true
    | _ => false

omit [OfScientific F] in
/-- A call of the verifier in flight holds a slot. -/
theorem JobRun.callsInFlight_le (s : JobRun F) : s.callsInFlight ≤ s.slots := by
  refine List.countP_mono_left fun w _ hw => ?_
  cases w with
  | leaving => cases hw
  | starting | verifying | recording => rfl

/-- No address is verified twice, and only addresses of the rows are. -/
theorem Books.calls_le (h : Books b as s) :
    (verifyCalls as : Multiset String) ≤ (b.order : Multiset String) := by
  have hsplit : s.crew.bind Worker.address =
      s.crew.bind Worker.inFlight + s.crew.bind Worker.unstarted := by
    rw [← Multiset.bind_add]
    exact Multiset.bind_congr fun w _ => w.address_eq
  rw [← h.addresses, h.calls, hsplit, Multiset.le_iff_exists_add]
  exact ⟨s.crew.bind Worker.unstarted + (s.phase.remaining b : Multiset String), by abel⟩

/-- Job completeness. In every execution of an accepted job without a `Cancel`: calls of the
    verifier in flight never exceed the configured number; no address is verified twice; when
    no address is left and the workers are done, every distinct lower-cased address has been
    verified once, every deduplicated row has exactly one result, with its label and the
    verdict of its address, and the job is completed, which `finish` leaves unchanged. The job
    gets there: it never gets stuck, and it takes a bounded number of steps. -/
theorem job_complete (r : Runner) (lower : String → String) (rows : List Row) {b : Batch}
    (hb : r.submit lower rows = .ok b) {as : List (JobAction F)} {s : JobRun F}
    (h : JobRun.Runs b {} as s) (hno : ∀ a ∈ as, a.isCancel = false) :
    s.callsInFlight ≤ r.concurrency ∧
    ((verifyCalls as).map lower).Nodup ∧
    (s.Idle b →
      ((verifyCalls as).map lower).Perm ((dedup lower rows).map (lower ·.email)).dedup ∧
      ∃ e, s.entry = some e ∧
        (e.results.map fun r => (r.label, some r.verdict)).Perm
          ((dedup lower rows).map fun row => (row.label, verdictOf lower as (lower row.email))) ∧
        e.job.done = (dedup lower rows).length ∧ e.job.total = (dedup lower rows).length ∧
        e.job.status = .completed) ∧
    (s.phase.over = true → s.Idle b) ∧
    as.length ≤ 6 * (dedup lower rows).length + 7 ∧
    (s.phase ≠ .finished → ∃ a s', a.isCancel = false ∧ s.Step b a s') := by
  -- the accepted batch
  obtain ⟨hlower, hrows, hconc⟩ : b.lower = lower ∧ b.rows = dedup lower rows ∧
      b.concurrency = r.concurrency := by
    unfold Runner.submit at hb
    split at hb
    · cases hb
    · split at hb
      · cases hb
      · cases hb
        exact ⟨rfl, rfl, rfl⟩
  subst hlower
  rw [← hrows, ← hconc]
  obtain ⟨hshape, hbooks, -⟩ := h.books hno
  refine ⟨?_, ?_, fun hidle => ?_, hshape.idle, ?_, s.progress b⟩
  · have hslots := hshape.slots
    rw [s.countP_crew] at hslots
    exact s.callsInFlight_le.trans hslots
  · have hle := Multiset.map_le_map hbooks.calls_le (f := b.lower)
    exact Multiset.coe_nodup.mp (Multiset.nodup_of_le hle (Multiset.coe_nodup.mpr b.nodup_order))
  · obtain ⟨-, hcalls, -⟩ := hbooks.of_idle hidle
    obtain ⟨e, he, hresults, hdone, htotal, hstatus⟩ := hbooks.status_eq hshape hidle
    refine ⟨(hcalls.map b.lower).trans b.map_order_perm, e, he, ?_, hdone, htotal, hstatus⟩
    rw [hresults]
    exact hbooks.results_perm hidle
  · have hsteps := h.length_add_todo_le hno
    rw [JobRun.todo_start] at hsteps
    have horder : b.order.length ≤ b.rows.length := by
      have := b.map_order_perm.length_eq
      rw [List.length_map] at this
      rw [this]
      exact (List.dedup_sublist _).length_le.trans (List.length_map _).le
    omega

/-- One address under two labels. -/
def pairRows : List Row := [⟨"x", "u@b"⟩, ⟨"y", "u@b"⟩]

/-- The job for `pairRows`, with one slot. -/
def pairBatch : Batch where
  lower := id
  rows := pairRows
  concurrency := 1
  rows_ne_nil := by simp [pairRows]
  concurrency_pos := Nat.one_pos

theorem dedup_pair : dedup id pairRows = pairRows := by decide +kernel

/-- A job with these two rows. -/
theorem submit_pair : (Runner.new 1 0).submit id pairRows = .ok pairBatch := by
  unfold Runner.submit
  rw [dif_neg (by rw [dedup_pair]; exact pairBatch.rows_ne_nil),
    if_neg (by rw [dedup_pair]; decide +kernel)]
  simp only [dedup_pair]
  rfl

theorem order_pair : pairBatch.order = ["u@b"] := by decide +kernel

theorem labels_pair : pairBatch.labels "u@b" = ["x", "y"] := by decide +kernel

/-- `pairBatch` when the last verdict is to be recorded. The verifier has failed. -/
def pairLast : JobRun ℚ where
  entry := some
    { job := { status := .running, total := 2, done := 1, createdAt := 0 }
      results := [⟨"x", outcome "u@b" 5 none⟩] }
  registered := true
  phase := .dispatching []
  workers := [.recording (outcome "u@b" 5 none) ["y"]]

/-- It runs to its first result: the call fails. -/
theorem runs_pairLast : JobRun.Runs pairBatch {}
    [.createJob 0, .register, .dispatch, .verify 0 "u@b", .verified 0 "u@b" none 5, .append 0 6]
    pairLast := by
  refine .cons ⟨rfl, rfl⟩ (.cons ⟨rfl, rfl⟩ ?_)
  rw [order_pair]
  refine .cons ⟨"u@b", [], rfl, by decide, rfl⟩ (.cons ⟨rfl, rfl⟩ (.cons ⟨rfl, rfl⟩ ?_))
  rw [labels_pair]
  exact .cons ⟨_, "x", ["y"], rfl, rfl⟩ (.nil _)

/-- `pairBatch` at the end of its goroutine. -/
def pairEnd : JobRun ℚ where
  entry := some
    { job := { status := .completed, total := 2, done := 2, createdAt := 0, completedAt := some 7 }
      results := [⟨"x", outcome "u@b" 5 none⟩, ⟨"y", outcome "u@b" 5 none⟩] }
  canceled := true
  phase := .finished

theorem runs_pairEnd : JobRun.Runs pairBatch pairLast
    [.append 0 7, .release 0, .exit 0, .drain, .join, .forget, .check] pairEnd := by
  refine .cons ⟨_, "y", [], rfl, rfl⟩ (.cons ⟨_, rfl, rfl⟩ (.cons ⟨rfl, rfl⟩ ?_))
  exact .cons ⟨rfl, rfl⟩ (.cons ⟨rfl, rfl, rfl⟩ (.cons ⟨rfl, rfl⟩ (.cons ⟨rfl, rfl⟩ (.nil _))))

/-- The address is verified once, and both rows get the verdict of a failed call. -/
theorem job_complete_pair : ∃ as : List (JobAction ℚ),
    JobRun.Runs pairBatch {} as pairEnd ∧ (∀ a ∈ as, a.isCancel = false) ∧
    pairEnd.Idle pairBatch ∧ (verifyCalls as).Perm ["u@b"] ∧
    ∃ e, pairEnd.entry = some e ∧ e.job.status = .completed ∧
      (e.results.map fun r => (r.label, some r.verdict)).Perm
        (pairRows.map fun row => (row.label, verdictOf id as row.email)) := by
  -- up to the first of the two rows, and from there to the end
  let before : List (JobAction ℚ) :=
    [.createJob 0, .register, .dispatch, .verify 0 "u@b", .verified 0 "u@b" none 5, .append 0 6]
  let after : List (JobAction ℚ) :=
    [.append 0 7, .release 0, .exit 0, .drain, .join, .forget, .check]
  have hno : ∀ a ∈ before ++ after, a.isCancel = false := by
    simp [before, after, JobAction.isCancel]
  have hrun := runs_pairLast.append runs_pairEnd
  obtain ⟨-, -, hidle, hover, -⟩ := job_complete _ _ _ submit_pair hrun hno
  obtain ⟨hcalls, e, he, hresults, -, -, hstatus⟩ := hidle (hover rfl)
  rw [dedup_pair] at hresults hcalls
  rw [List.map_id] at hcalls
  exact ⟨_, hrun, hno, hover rfl, hcalls, e, he, hstatus, hresults⟩

end Rcptto.Native
