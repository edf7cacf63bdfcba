import Rcptto.ForStd.Run
import Rcptto.Native.JobStore

/-!
# The two job stores answer alike

The entry of a job in memory and its rows in the database stand for each other: one row of `jobs`
with the values of the job, and one row of `job_results` for each result, numbered in the order in
which the results were appended (`Simulates`). Every call keeps this and gets the same answer from
both stores (`exec_simulates`), so that a whole sequence of calls does (`interchangeable`).

This needs the bounds of `Within`. The columns of the database have 32 bits, where memory counts in
64; a verdict has to be a JSON document; and a page has to be one that the adapter can allocate.
-/

namespace Rcptto.Native

variable {F : Type} {p : Platform F} {s s' : MemoryJobs F} {d d' : Database F} {id id' : String}
  {e : StoredEntry F} {now : Int}

/-! ## Precision -/

/-- A job as the database gives it back. -/
def StoredJob.toPrecision (job : StoredJob) : StoredJob :=
  { job with
    createdAt := timestamptz job.createdAt
    completedAt := job.completedAt.map timestamptz }

/-- An answer with its timestamps at the precision of the database. -/
def JobAnswer.toPrecision : JobAnswer F → JobAnswer F
  | .job j => .job j.toPrecision
  | a => a

/-- An event with the timestamps of its answer at the precision of the database. -/
def JobEvent.toPrecision (ev : JobEvent F) : JobEvent F :=
  { ev with answer := ev.answer.map JobAnswer.toPrecision }

/-- What the caller of a store decides: the call, and the clock. -/
def JobEvent.request (ev : JobEvent F) : Int × JobCall F := (ev.now, ev.call)

@[simp] theorem StoredJob.scan_row (job : StoredJob) : job.row.scan = job.toPrecision := by
  simp [StoredJob.row, JobRow.scan, StoredJob.toPrecision]

/-! ## Statistics -/

/-- The statistics of results of which `weight q` have a key with the property `q`. -/
def JobStats.histogram (weight : (StatsKey → Bool) → Nat) : JobStats where
  total := weight fun _ => true
  byStatus x := weight (·.status == x)
  bySubStatus x := weight (·.subStatus == x)
  byProvider x := weight (·.provider == x)
  probed := weight (·.probed)
  notProbed := weight (!·.probed)

/-- Adding to one count. -/
private theorem update_add (f : String → Nat) (k : String) (n : Nat) (x : String) :
    Function.update f k (f k + n) x = f x + if k == x then n else 0 := by
  by_cases h : x = k
  · subst h
    simp
  · simp [h, Ne.symm h]

/-- Adding to a histogram adds to every weight that counts the key. -/
theorem JobStats.histogram_add (weight : (StatsKey → Bool) → Nat) (k : StatsKey) (n : Nat) :
    (histogram weight).add k n = histogram fun q => weight q + if q k then n else 0 := by
  apply JobStats.ext
  · simp [add, histogram]
  · exact funext fun x => update_add (fun x => weight (·.status == x)) k.status n x
  · exact funext fun x => update_add (fun x => weight (·.subStatus == x)) k.subStatus n x
  · exact funext fun x => update_add (fun x => weight (·.provider == x)) k.provider n x
  · cases hk : k.probed <;> simp [add, histogram, hk]
  · cases hk : k.probed <;> simp [add, histogram, hk]

/-- Statistics are a histogram of the groups that they are added up from. -/
theorem JobStats.foldl_add (groups : List (StatsKey × Nat)) :
    groups.foldl (fun s g => s.add g.1 g.2) {} =
      histogram fun q => ((groups.filter fun g => q g.1).map (·.2)).sum := by
  induction groups using List.reverseRecOn with
  | nil => rfl
  | append_singleton groups g ih =>
    rw [List.foldl_append, ih, List.foldl_cons, List.foldl_nil, histogram_add]
    congr 1
    funext q
    rw [List.filter_append, List.map_append, List.sum_append]
    cases hq : q g.1 <;> simp [hq]

/-- The statistics of memory. -/
theorem JobStats.ofResults_eq (results : List (JobResult F)) :
    ofResults results = histogram fun q => results.countP fun r => q r.verdict.statsKey := by
  induction results using List.reverseRecOn with
  | nil => rfl
  | append_singleton results r ih =>
    unfold ofResults at ih ⊢
    rw [List.foldl_append, ih, List.foldl_cons, List.foldl_nil, histogram_add]
    congr 1
    funext q
    rw [List.countP_append, List.countP_singleton]

/-- `COALESCE(NULLIF(…, ''), 'unknown')` names the provider as memory does. -/
theorem ResultRow.statsKey_eq (row : ResultRow F) : row.statsKey = row.verdict.statsKey := by
  unfold ResultRow.statsKey Verdict.statsKey Verdict.jsonProvider
  by_cases h : row.verdict.provider = "" <;> simp [h, Option.filter]

/-- The statistics of the database are those of the results, however its rows are kept. -/
theorem JobStats.foldl_groupBy {rows : List (ResultRow F)} {results : List (JobResult F)}
    (h : (rows.map (·.verdict)).Perm (results.map (·.verdict))) :
    (Table.groupBy ResultRow.statsKey rows).foldl (fun s g => s.add g.1 g.2) {} =
      ofResults results := by
  rw [foldl_add, ofResults_eq]
  congr 1
  funext q
  rw [Table.sum_groupBy]
  -- each count is over the verdicts, which are the same up to their order
  calc rows.countP (q ∘ ResultRow.statsKey)
      = (rows.map (·.verdict)).countP fun v => q v.statsKey := by
        rw [List.countP_map]
        exact List.countP_congr fun row _ => by simp [ResultRow.statsKey_eq]
    _ = (results.map (·.verdict)).countP fun v => q v.statsKey := h.countP_eq _
    _ = results.countP fun r => q r.verdict.statsKey := by
        rw [List.countP_map]
        rfl

/-! ## Rows -/

namespace Database

@[simp] theorem updateJob_resultRows (f : JobRow → JobRow) :
    (d.updateJob id f).resultRows id' = d.resultRows id' := rfl

/-- An update of a job changes its rows. -/
theorem updateJob_jobRows {f : JobRow → JobRow} (hf : ∀ row, (f row).id = row.id) :
    (d.updateJob id f).jobRows id = (d.jobRows id).map f := by
  unfold updateJob jobRows
  rw [Table.filter_update fun row _ => by rw [hf]]
  exact Table.update_of_forall fun row hrow => (List.mem_filter.mp hrow).2

/-- An update of a job leaves the rows of the others alone. -/
theorem updateJob_jobRows_of_ne {f : JobRow → JobRow} (hf : ∀ row, (f row).id = row.id)
    (hne : id' ≠ id) : (d.updateJob id f).jobRows id' = d.jobRows id' := by
  unfold updateJob jobRows
  rw [Table.filter_update fun row _ => by rw [hf]]
  refine Table.update_of_forall_not fun row hrow => ?_
  have hid : row.id = id' := by simpa using (List.mem_filter.mp hrow).2
  simpa [hid] using hne

end Database

/-- The rows of `job_results` for the results of a job. -/
def rowsOf (id : String) (results : List (JobResult F)) : List (ResultRow F) :=
  results.mapIdx fun i r => { jobID := id, idx := i, verdict := r.verdict, label := r.label }

theorem rowsOf_snoc (results : List (JobResult F)) (r : JobResult F) :
    rowsOf id (results ++ [r]) = rowsOf id results ++
      [{ jobID := id, idx := results.length, verdict := r.verdict, label := r.label }] := by
  simp [rowsOf, List.mapIdx_append]

/-- The results can be read back from their rows. -/
theorem rowsOf_results (id : String) (results : List (JobResult F)) :
    (rowsOf id results).map (fun row => ({ label := row.label, verdict := row.verdict } :
      JobResult F)) = results := by
  induction results using List.reverseRecOn with
  | nil => rfl
  | append_singleton results r ih =>
    rw [rowsOf_snoc, List.map_append, ih]
    rfl

theorem rowsOf_verdicts (id : String) (results : List (JobResult F)) :
    (rowsOf id results).map (·.verdict) = results.map (·.verdict) := by
  conv_rhs => rw [← rowsOf_results id results, List.map_map]
  rfl

theorem idx_lt_of_mem_rowsOf {results : List (JobResult F)} {row : ResultRow F}
    (h : row ∈ rowsOf id results) : row.idx < results.length := by
  obtain ⟨i, hi, rfl⟩ := List.mem_mapIdx.mp h
  exact Int.ofNat_lt.mpr hi

/-- The rows are in the order of their indices. -/
theorem rowsOf_pairwise (results : List (JobResult F)) :
    (rowsOf id results).Pairwise fun row row' => row.idx < row'.idx := by
  induction results using List.reverseRecOn with
  | nil => exact .nil
  | append_singleton results r ih =>
    rw [rowsOf_snoc, List.pairwise_append]
    refine ⟨ih, List.pairwise_singleton _ _, fun row hrow row' hrow' => ?_⟩
    rw [List.mem_singleton.mp hrow']
    exact idx_lt_of_mem_rowsOf hrow

/-! ## The simulation -/

/-- The rows with the key `id` are those of an entry. -/
structure Database.Holds (d : Database F) (id : String) (e : Option (StoredEntry F)) : Prop where
  jobs : d.jobRows id = (e.map fun e => e.job.row).toList
  results : (d.resultRows id).Perm ((e.map fun e => rowsOf id e.results).getD [])

/-- What `CreateJob` and `AppendResult` make of an entry: its number of results is the count of the
    job, and fits into the column. -/
structure StoredEntry.Counted (e : StoredEntry F) (id : String) : Prop where
  id_eq : e.job.id = id
  done_eq : e.job.done = e.results.length
  length_lt : e.results.length < 2 ^ 31

/-- The tables hold what memory does. -/
structure Simulates (s : MemoryJobs F) (d : Database F) : Prop where
  holds : ∀ id, d.Holds id (s id)
  counted : ∀ id e, s id = some e → e.Counted id

theorem Simulates.empty : Simulates (F := F) (fun _ => none) {} where
  holds _ := ⟨rfl, .refl _⟩
  counted _ _ h := absurd h (by simp)

/-- The order of the rows means nothing. -/
theorem Simulates.perm (h : Simulates s d) (hperm : d.Perm d') : Simulates s d' where
  holds id := by
    have hjobs : (d'.jobRows id).Perm (d.jobRows id) := (hperm.1.filter _).symm
    refine ⟨?_, (hperm.2.filter _).symm.trans (h.holds id).results⟩
    rw [(h.holds id).jobs] at hjobs
    -- a job has no row or one, so its rows cannot be in another order
    cases hs : s id with
    | none =>
      rw [hs] at hjobs
      exact hjobs.eq_nil
    | some e =>
      rw [hs] at hjobs
      exact List.perm_singleton.mp hjobs
  counted := h.counted

/-- A write of one entry and of its rows. -/
theorem Simulates.update (h : Simulates s d) (hself : d'.Holds id (some e))
    (hother : ∀ id', id' ≠ id → d'.jobRows id' = d.jobRows id' ∧
      d'.resultRows id' = d.resultRows id')
    (hcounted : e.Counted id) : Simulates (Function.update s id (some e)) d' where
  holds id' := by
    -- the job that is changed, and any other one
    by_cases hid : id' = id
    · subst hid
      rwa [Function.update_self]
    · obtain ⟨hjobs, hresults⟩ := hother id' hid
      rw [Function.update_of_ne hid]
      exact ⟨hjobs ▸ (h.holds id').jobs, hresults ▸ (h.holds id').results⟩
  counted id' e' he' := by
    by_cases hid : id' = id
    · subst hid
      rw [Function.update_self, Option.some_inj] at he'
      rwa [← he']
    · rw [Function.update_of_ne hid] at he'
      exact h.counted id' e' he'

/-- The database finds a job exactly if the store has it. -/
theorem Simulates.selectJob (h : Simulates s d) (id : String) :
    d.selectJob id = (s id).map fun e => e.job.row := by
  unfold Database.selectJob
  rw [(h.holds id).jobs]
  cases s id <;> rfl

/-! ## One call -/

/-- The bounds under which the database can do what memory does. -/
def Within (p : Platform F) (s : MemoryJobs F) : JobCall F → Prop
  | .createJob job => s job.id = none ∧ job.done = 0 ∧ int4 job.total
  | .appendResult id r =>
    p.marshals r.verdict ∧ ∀ e, s id = some e → e.results.length + 1 < 2 ^ 31
  | .results _ _ limit => 1 ≤ limit ∧ limit ≤ p.maxCap
  | _ => True

private theorem known_toString {status : StoredStatus} {k : JobStatus} :
    status.toString = k.toString ↔ status = .known k :=
  (StoredStatus.toString_inj : status.toString = (StoredStatus.known k).toString ↔ _)

/-- The row of a job after `SetStatus`. -/
theorem row_setStatus (status : StoredStatus) :
    (e.setStatus now status).job.row =
      { e.job.row with
        status := status.toString
        completedAt :=
          if status.toString ∈ [JobStatus.completed.toString, JobStatus.canceled.toString] ∧
              e.job.row.completedAt = none then
            some (timestamptz now)
          else e.job.row.completedAt } := by
  simp only [List.mem_cons, List.not_mem_nil, or_false, known_toString]
  unfold StoredEntry.setStatus StoredJob.row
  simp only [Option.map_eq_none_iff]
  split <;> rfl

/-- The row of a job after `AppendResult`. -/
theorem row_appendResult (r : JobResult F) :
    (e.appendResult now r).job.row =
      if e.job.row.status ≠ JobStatus.canceled.toString ∧ e.job.row.done + 1 ≥ e.job.row.total then
        { e.job.row with
          done := e.job.row.done + 1
          status := JobStatus.completed.toString
          completedAt := some (timestamptz now) }
      else { e.job.row with done := e.job.row.done + 1 } := by
  have hstatus : e.job.row.status ≠ JobStatus.canceled.toString ↔
      e.job.status ≠ .known .canceled := not_congr known_toString
  simp only [hstatus]
  unfold StoredEntry.appendResult StoredJob.row
  dsimp only
  split <;> rfl

/-- `CreateJob` for a new job is simulated. -/
theorem createJob_simulates (h : Simulates s d) {job : StoredJob} (hfresh : s job.id = none)
    (hdone : job.done = 0) (htotal : int4 job.total) :
    ∃ d', d.createJob job = .ok d' ∧
      Simulates (Function.update s job.id (some { job := job })) d' := by
  have hrows : d.jobRows job.id = [] := by simpa [hfresh] using (h.holds job.id).jobs
  have hresults : d.resultRows job.id = [] := by simpa [hfresh] using (h.holds job.id).results
  -- the primary key is free
  have hnone : d.jobs.any (·.id == job.id) = false := by
    simpa [Database.jobRows, List.filter_eq_nil_iff] using hrows
  refine ⟨{ d with jobs := d.jobs ++ [job.row] }, ?_, h.update ⟨?_, ?_⟩ ?_ ⟨rfl, hdone, by simp⟩⟩
  · have h0 : int4 job.done = true := by rw [hdone]; decide
    simp [Database.createJob, htotal, h0, hnone]
  · show (d.jobs ++ [job.row]).filter (·.id == job.id) = [job.row]
    rw [List.filter_append, List.filter_cons_of_pos (by simp [StoredJob.row])]
    exact congrArg (· ++ [job.row]) hrows
  · exact .of_eq hresults
  · intro id' hne
    refine ⟨?_, rfl⟩
    show (d.jobs ++ [job.row]).filter (·.id == id') = d.jobRows id'
    rw [List.filter_append, List.filter_cons_of_neg (by simpa [StoredJob.row] using hne.symm)]
    exact List.append_nil _

/-- `SetStatus` is simulated. -/
theorem setStatus_simulates (h : Simulates s d) (hs : s id = some e) (status : StoredStatus) :
    ∃ d', d.setStatus now id status = .ok d' ∧
      Simulates (Function.update s id (some (e.setStatus now status))) d' := by
  have hrows : d.jobRows id = [e.job.row] := by simpa [hs] using (h.holds id).jobs
  have hcounted := h.counted id e hs
  have hset : d.setStatus now id status = .ok (d.updateJob id _) := if_neg (by simp [hrows])
  refine ⟨_, hset, h.update ⟨?_, ?_⟩ ?_ ⟨hcounted.id_eq, hcounted.done_eq, hcounted.length_lt⟩⟩
  · rw [Database.updateJob_jobRows (by simp), hrows]
    exact congrArg (fun row => [row]) (row_setStatus status).symm
  · simpa [hs, StoredEntry.setStatus] using (h.holds id).results
  · exact fun id' hne => ⟨Database.updateJob_jobRows_of_ne (fun _ => rfl) hne, rfl⟩

/-- No result of the job has the index of the next one. -/
theorem Simulates.next_free (h : Simulates s d) (hs : s id = some e) :
    (d.results.any fun row => row.jobID == id && row.idx == e.job.done) = false := by
  have hresults : (d.resultRows id).Perm (rowsOf id e.results) := by
    simpa [hs] using (h.holds id).results
  refine List.any_eq_false.mpr fun row hrow hkey => ?_
  obtain ⟨hid, hidx⟩ := Bool.and_eq_true_iff.mp hkey
  have hlt := idx_lt_of_mem_rowsOf (hresults.mem_iff.mp (List.mem_filter.mpr ⟨hrow, hid⟩))
  have hdone := (h.counted id e hs).done_eq
  have hidx' : row.idx = e.job.done := by simpa using hidx
  omega

/-- The entry after `AppendResult`, and tables with its row of `jobs` and one more result. -/
theorem Simulates.append (h : Simulates s d) (hs : s id = some e) {r : JobResult F}
    (hlength : e.results.length + 1 < 2 ^ 31)
    (hself : d'.jobRows id = [(e.appendResult now r).job.row])
    (hother : ∀ id', id' ≠ id → d'.jobRows id' = d.jobRows id')
    (hresults : d'.results = d.results ++
      [{ jobID := id, idx := e.job.done, verdict := r.verdict, label := r.label }]) :
    Simulates (Function.update s id (some (e.appendResult now r))) d' := by
  have hcounted := h.counted id e hs
  refine h.update ⟨hself, ?_⟩ (fun id' hne => ⟨hother id' hne, ?_⟩) ⟨?_, ?_, ?_⟩
  · -- the new row has the next number, which is the length so far
    have hrows : (d.resultRows id).Perm (rowsOf id e.results) := by
      simpa [hs] using (h.holds id).results
    show (d'.results.filter _).Perm (rowsOf id (e.results ++ [r]))
    rw [hresults, List.filter_append, List.filter_cons_of_pos (by simp), rowsOf_snoc,
      hcounted.done_eq]
    exact hrows.append_right _
  · unfold Database.resultRows
    rw [hresults, List.filter_append, List.filter_cons_of_neg (by simpa using hne.symm)]
    exact List.append_nil _
  · rw [← hcounted.id_eq]
    unfold StoredEntry.appendResult
    dsimp only
    split <;> rfl
  · have hdone : (e.appendResult now r).job.done = e.job.done + 1 := by
      unfold StoredEntry.appendResult
      dsimp only
      split <;> rfl
    rw [hdone, hcounted.done_eq]
    simp [StoredEntry.appendResult]
  · simpa [StoredEntry.appendResult] using hlength

/-- `AppendResult` is simulated, as long as the index fits into an `INTEGER` and the verdict into
    JSON. -/
theorem appendResult_simulates (h : Simulates s d) (hs : s id = some e) {r : JobResult F}
    (hmarshals : p.marshals r.verdict) (hlength : e.results.length + 1 < 2 ^ 31) :
    ∃ d', d.appendResult p now id r = .ok d' ∧
      Simulates (Function.update s id (some (e.appendResult now r))) d' := by
  have hrows : d.jobRows id = [e.job.row] := by simpa [hs] using (h.holds id).jobs
  have hselect : d.selectJob id = some e.job.row := by rw [h.selectJob, hs]; rfl
  have hdone := (h.counted id e hs).done_eq
  have hint : int4 (e.job.row.done + 1) = true := by
    simp only [int4, StoredJob.row, hdone, Bool.and_eq_true, decide_eq_true_eq]
    omega
  -- the index of the new row is not taken, so the insert does not fail
  have hfree : (d.results.any fun row => row.jobID == id && row.idx == e.job.row.done + 1 - 1) =
      false := by
    rw [Int.add_sub_cancel]
    exact h.next_free hs
  unfold Database.appendResult
  rw [if_neg (by simp [hmarshals]), hselect]
  dsimp only
  rw [if_neg (by simp [hint]), if_neg (by simpa [Database.updateJob] using hfree)]
  -- the count of the job goes up, whether or not it completes
  have hcount : (d.updateJob id fun row => { row with done := e.job.row.done + 1 }).jobRows id =
      [{ e.job.row with done := e.job.row.done + 1 }] := by
    rw [Database.updateJob_jobRows (by simp), hrows]
    rfl
  by_cases hc : e.job.row.status ≠ JobStatus.canceled.toString ∧
      e.job.row.done + 1 ≥ e.job.row.total
  · rw [if_pos hc]
    refine ⟨_, rfl, h.append hs hlength ?_ (fun id' hne => ?_) ?_⟩
    · rw [row_appendResult, if_pos hc, Database.updateJob_jobRows (by simp)]
      exact congrArg (List.map _) hcount
    · rw [Database.updateJob_jobRows_of_ne (by simp) hne]
      exact Database.updateJob_jobRows_of_ne (by simp) hne
    · rw [Int.add_sub_cancel]
      rfl
  · rw [if_neg hc]
    refine ⟨_, rfl, h.append hs hlength ?_ (fun id' hne => ?_) ?_⟩
    · rw [row_appendResult, if_neg hc]
      exact hcount
    · exact Database.updateJob_jobRows_of_ne (by simp) hne
    · rw [Int.add_sub_cancel]
      rfl

theorem wrapInt_of_lt {n : Int} (h0 : 0 ≤ n) (hn : n < 2 ^ 63) : wrapInt n = n := by
  unfold wrapInt
  omega

/-- `ORDER BY idx` returns the results in the order in which they were appended. -/
theorem Simulates.ordered (h : Simulates s d) (hs : s id = some e) :
    Table.orderBy (·.idx) (d.resultRows id) = rowsOf id e.results := by
  refine Table.orderBy_eq ?_ (rowsOf_pairwise e.results)
  simpa [hs] using (h.holds id).results

/-- `Results` gives the same page. -/
theorem page_simulates (h : Simulates s d) (hs : s id = some e) {cursor limit : Int}
    (hlimit : 1 ≤ limit) (hcap : limit ≤ p.maxCap) :
    d.page p id cursor limit = e.page cursor limit := by
  have hselect : d.selectJob id = some e.job.row := by rw [h.selectJob, hs]; rfl
  have hlength := (h.counted id e hs).length_lt
  have hmax := p.maxCap_lt
  have hfetch : wrapInt (limit + 1) = limit + 1 := wrapInt_of_lt (by omega) (by omega)
  unfold Database.page StoredEntry.page
  simp only [hselect, h.ordered hs, hfetch, if_neg (show ¬ limit ≤ 0 by omega),
    if_neg (show ¬ limit + 1 < 0 by omega), if_neg (show ¬ limit > p.maxCap by omega),
    List.map_take, List.map_drop, rowsOf_results]
  have hc : 0 ≤ if cursor < 0 then 0 else cursor := by split <;> omega
  generalize (if cursor < 0 then 0 else cursor) = c at hc ⊢
  have hitems : ((e.results.drop c.toNat).take (limit + 1).toNat).length =
      min (limit + 1).toNat (e.results.length - c.toNat) := by
    rw [List.length_take, List.length_drop]
  by_cases hpast : c ≥ e.results.length
  · -- past the end
    rw [if_pos hpast, List.drop_eq_nil_of_le (by omega), List.take_nil,
      if_neg (by simpa using by omega)]
  · have hstop : wrapInt (c + limit) = c + limit := wrapInt_of_lt (by omega) (by omega)
    rw [if_neg hpast, hstop]
    by_cases hmore : c + limit < e.results.length
    · -- a full page, with more to come
      have hclamp : ¬ c + limit > e.results.length := by omega
      rw [if_pos (by omega), if_neg hclamp, if_neg (by omega), if_pos hmore, List.take_take]
      congr 3
      omega
    · -- the rest
      have hclamp : (if c + limit > e.results.length then (e.results.length : Int) else c + limit) =
          e.results.length := by split <;> omega
      rw [hclamp, if_neg (by omega), if_neg (by omega), if_neg (Int.lt_irrefl _),
        List.take_of_length_le (by rw [List.length_drop]; omega),
        List.take_of_length_le (by rw [List.length_drop]; omega)]

/-- `Stats` gives the same statistics. -/
theorem stats_simulates (h : Simulates s d) (hs : s id = some e) :
    d.stats id = .ok (.ofResults e.results) := by
  have hselect : d.selectJob id = some e.job.row := by rw [h.selectJob, hs]; rfl
  have hrows : (d.resultRows id).Perm (rowsOf id e.results) := by
    simpa [hs] using (h.holds id).results
  have hverdicts : ((d.resultRows id).map (·.verdict)).Perm (e.results.map (·.verdict)) := by
    rw [← rowsOf_verdicts id e.results]
    exact hrows.map _
  unfold Database.stats
  rw [hselect]
  exact congrArg Except.ok (JobStats.foldl_groupBy hverdicts)

/-- A call keeps the simulation and gets the same answer. -/
theorem exec_simulates (h : Simulates s d) (now : Int) (call : JobCall F) (hw : Within p s call) :
    (d.exec p now call).1 = (s.exec now call).1.map JobAnswer.toPrecision ∧
      Simulates (s.exec now call).2 (d.exec p now call).2 := by
  cases call with
  | createJob job =>
    obtain ⟨hfresh, hdone, htotal⟩ := hw
    obtain ⟨d', hd', hsim⟩ := createJob_simulates h hfresh hdone htotal
    simp only [Database.exec, hd']
    exact ⟨rfl, hsim⟩
  | getJob id =>
    simp only [Database.exec, Database.getJob, h.selectJob, MemoryJobs.exec]
    cases s id with
    | none => exact ⟨rfl, h⟩
    | some e =>
      -- the only answer with timestamps
      refine ⟨?_, h⟩
      simp [Except.map, JobAnswer.toPrecision]
  | appendResult id r =>
    obtain ⟨hmarshals, hlength⟩ := hw
    simp only [Database.exec, MemoryJobs.exec]
    cases hs : s id with
    | none =>
      -- the marshalled verdict is dropped, as no row is updated
      have herr : d.appendResult p now id r = .error .errJobNotFound := by
        simp [Database.appendResult, hmarshals, h.selectJob, hs]
      rw [herr]
      exact ⟨rfl, h⟩
    | some e =>
      obtain ⟨d', hd', hsim⟩ := appendResult_simulates h hs hmarshals (hlength e hs)
      rw [hd']
      exact ⟨rfl, hsim⟩
  | setStatus id status =>
    simp only [Database.exec, MemoryJobs.exec]
    cases hs : s id with
    | none =>
      -- the statement succeeds, but affects no row
      have hrows : d.jobRows id = [] := by simpa [hs] using (h.holds id).jobs
      have herr : d.setStatus now id status = .error .errJobNotFound := by
        simp [Database.setStatus, hrows]
      rw [herr]
      exact ⟨rfl, h⟩
    | some e =>
      obtain ⟨d', hd', hsim⟩ := setStatus_simulates h hs status
      rw [hd']
      exact ⟨rfl, hsim⟩
  | results id cursor limit =>
    obtain ⟨hlimit, hcap⟩ := hw
    simp only [Database.exec, MemoryJobs.exec]
    cases hs : s id with
    | none =>
      refine ⟨?_, h⟩
      simp [Database.page, h.selectJob, hs, Except.map]
    | some e =>
      refine ⟨?_, h⟩
      dsimp only
      rw [page_simulates h hs hlimit hcap]
      cases e.page cursor limit <;> rfl
  | stats id =>
    simp only [Database.exec, MemoryJobs.exec]
    cases hs : s id with
    | none =>
      refine ⟨?_, h⟩
      simp [Database.stats, h.selectJob, hs, Except.map]
    | some e =>
      refine ⟨?_, h⟩
      rw [stats_simulates h hs]
      rfl

/-! ## Sequences of calls -/

/-- A step of memory that stays within the bounds. -/
def MemoryJobs.StepWithin (p : Platform F) (s : MemoryJobs F) (ev : JobEvent F)
    (s' : MemoryJobs F) : Prop := Within p s ev.call ∧ s.Step ev s'

/-- The database can take the step that memory takes. -/
theorem MemoryJobs.StepWithin.exists_step {ev : JobEvent F} (hstep : s.StepWithin p ev s')
    (h : Simulates s d) : ∃ d', Database.Step p d ev.toPrecision d' ∧ Simulates s' d' := by
  obtain ⟨hw, hexec⟩ := hstep
  obtain ⟨hanswer, hsim⟩ := exec_simulates h ev.now ev.call hw
  rw [hexec] at hanswer hsim
  exact ⟨_, ⟨d, ⟨.refl _, .refl _⟩, Prod.ext hanswer rfl⟩, hsim⟩

/-- Every step of the database on the same request is that one. -/
theorem MemoryJobs.StepWithin.of_step {ev ev' : JobEvent F} (hstep : s.StepWithin p ev s')
    (h : Simulates s d) (hsame : ev'.request = ev.request) (hd : Database.Step p d ev' d') :
    ev' = ev.toPrecision ∧ Simulates s' d' := by
  obtain ⟨hw, hexec⟩ := hstep
  obtain ⟨d₁, hperm, hd⟩ := hd
  obtain ⟨now', call', answer'⟩ := ev'
  obtain ⟨rfl, rfl⟩ : now' = ev.now ∧ call' = ev.call := Prod.ext_iff.mp hsame
  obtain ⟨hanswer, hsim⟩ := exec_simulates (h.perm hperm) ev.now ev.call hw
  rw [hexec, show d₁.exec p ev.now ev.call = (answer', d') from hd] at hanswer hsim
  exact ⟨congrArg (JobEvent.mk ev.now ev.call) hanswer, hsim⟩

/-- A whole sequence of calls, from states that simulate each other. -/
theorem Simulates.runs {evs : List (JobEvent F)} (h : Simulates s d)
    (hrun : Run (MemoryJobs.StepWithin p) s evs s') :
    (∃ d', Run (Database.Step p) d (evs.map JobEvent.toPrecision) d') ∧
      ∀ fs d', Run (Database.Step p) d fs d' →
        fs.map JobEvent.request = evs.map JobEvent.request → fs = evs.map JobEvent.toPrecision := by
  -- by induction on the history of the store: the database can take each step, and only with the
  -- same answer
  induction hrun generalizing d with
  | nil =>
    refine ⟨⟨d, .nil d⟩, fun fs d' _ hsame => ?_⟩
    simpa using hsame
  | cons hstep _ ih =>
    constructor
    · obtain ⟨d₁, hd₁, h₁⟩ := hstep.exists_step h
      obtain ⟨d', hd'⟩ := (ih h₁).1
      exact ⟨d', .cons hd₁ hd'⟩
    · intro fs d' hfs hsame
      cases hfs with
      | nil => simp at hsame
      | cons hf hfs =>
        obtain ⟨hreq, hsame⟩ := List.cons_eq_cons.mp hsame
        obtain ⟨hev, h₁⟩ := hstep.of_step h hreq hf
        rw [hev, (ih h₁).2 _ d' hfs hsame]
        rfl

/-- The two stores are interchangeable. For every sequence of calls on an empty memory store that
    stays within the bounds, the sequences of answers that the database can give to the same calls
    at the same times are just one: the answers of memory, at the precision of the database. -/
theorem jobStores_interchangeable {evs : List (JobEvent F)}
    (hrun : Run (MemoryJobs.StepWithin p) (fun _ => none) evs s) {fs : List (JobEvent F)}
    (hsame : fs.map JobEvent.request = evs.map JobEvent.request) :
    (∃ d, Run (Database.Step p) {} fs d) ↔ fs = evs.map JobEvent.toPrecision := by
  obtain ⟨hexists, hunique⟩ := Simulates.empty.runs hrun
  constructor
  · rintro ⟨d, hd⟩
    exact hunique fs d hd hsame
  · rintro rfl
    exact hexists

/-- A job with one address, before its result. -/
def oneAddress : StoredJob where
  id := "list"
  status := .known .running
  total := 1
  done := 0
  createdAt := 1500
  completedAt := none

/-- Its result. A confidence is a rational number here, or `none` for NaN. -/
def oneResult : JobResult (Option Rat) where
  label := "client"
  verdict :=
    { email := "user@example.com"
      normalized := "user@example.com"
      status := .deliverable
      subStatus := .validMailbox
      confidence := some 1
      checks := { smtp := { probed := true, code := 250 } }
      provider := ""
      engine := "builtin"
      egressID := ""
      checkedAt := 2500 }

/-- `json.Marshal` refuses NaN. -/
def server : Platform (Option Rat) where
  marshals v := v.confidence.isSome
  maxCap := 2 ^ 40
  maxCap_lt := by decide

/-- What memory answers about the job: its result completes it. -/
def oneHistory : List (JobEvent (Option Rat)) :=
  [⟨2000, .createJob oneAddress, .ok .done⟩,
    ⟨3500, .appendResult "list" oneResult, .ok .done⟩,
    ⟨4000, .results "list" (-1) 10, .ok (.page [oneResult] 0)⟩,
    ⟨4500, .getJob "list", .ok (.job
      { oneAddress with status := .known .completed, done := 1, completedAt := some 3500 })⟩,
    ⟨5000, .setStatus "other" (.known .canceled), .error .errJobNotFound⟩]

/-- The database answers the same, in microseconds. -/
theorem jobStores_interchangeable_oneHistory : ∃ d, Run (Database.Step server) {}
    [⟨2000, .createJob oneAddress, .ok .done⟩,
      ⟨3500, .appendResult "list" oneResult, .ok .done⟩,
      ⟨4000, .results "list" (-1) 10, .ok (.page [oneResult] 0)⟩,
      ⟨4500, .getJob "list", .ok (.job
        { oneAddress with
          status := .known .completed, done := 1, createdAt := 1000, completedAt := some 3000 })⟩,
      ⟨5000, .setStatus "other" (.known .canceled), .error .errJobNotFound⟩] d := by
  -- the history of the store in memory, step by step
  have hrun : ∃ s, Run (MemoryJobs.StepWithin server) (fun _ => none) oneHistory s := by
    refine ⟨_, .cons ⟨⟨rfl, rfl, rfl⟩, rfl⟩ (.cons ⟨⟨rfl, fun e he => ?_⟩, rfl⟩
      (.cons ⟨⟨by decide, by decide⟩, rfl⟩ (.cons ⟨trivial, rfl⟩ (.cons ⟨trivial, rfl⟩ (.nil _)))))⟩
    obtain rfl := Option.some.inj he
    decide
  obtain ⟨s, hrun⟩ := hrun
  refine (jobStores_interchangeable hrun ?_).mpr ?_
  · rfl
  · rfl

/-! ## Beyond the bounds -/

/-- Memory gives these answers, and the database does not. -/
def AnswersDiffer (evs : List (JobEvent (Option Rat))) : Prop :=
  (∃ s, Run MemoryJobs.Step (fun _ => none) evs s) ∧
    ¬ ∃ d, Run (Database.Step server) {} (evs.map JobEvent.toPrecision) d

/-- The total does not fit into its column. -/
def largeTotal : List (JobEvent (Option Rat)) :=
  [⟨2000, .createJob { oneAddress with total := 2 ^ 31 }, .ok .done⟩]

/-- The confidence of a verdict is NaN. -/
def notANumber : List (JobEvent (Option Rat)) :=
  [⟨2000, .createJob oneAddress, .ok .done⟩,
    ⟨3000, .appendResult "list"
      { oneResult with verdict := { oneResult.verdict with confidence := none } }, .ok .done⟩]

/-- The page would have more room than can be allocated. -/
def largePage : List (JobEvent (Option Rat)) :=
  [⟨2000, .createJob oneAddress, .ok .done⟩,
    ⟨3000, .results "list" 0 (2 ^ 40 + 1), .ok (.page [] 0)⟩]

/-- With at most one row in each table there is one order of the rows. -/
private theorem Database.Step.exec_eq {ev : JobEvent F} (h : Database.Step p d ev d')
    (hjobs : d.jobs.length ≤ 1) (hresults : d.results.length ≤ 1) :
    d.exec p ev.now ev.call = (ev.answer, d') := by
  -- a table with at most one row has one order only
  have single : ∀ {α : Type} {l l' : List α}, l.Perm l' → l.length ≤ 1 → l = l' := by
    intro α l l' h hl
    match l, hl with
    | [], _ => exact h.nil_eq
    | [x], _ => exact (List.perm_singleton.mp h.symm).symm
  obtain ⟨d₁, ⟨hj, hr⟩, hexec⟩ := h
  have hd : d = d₁ := by
    cases d
    cases d₁
    rw [Database.mk.injEq]
    exact ⟨single hj hjobs, single hr hresults⟩
  rw [hd, hexec]

/-- A total that does not fit, a confidence that is not a number, and a page that is too large. -/
theorem jobStores_differ :
    AnswersDiffer largeTotal ∧ AnswersDiffer notANumber ∧ AnswersDiffer largePage := by
  refine ⟨⟨⟨_, .cons rfl (.nil _)⟩, ?_⟩, ⟨⟨_, .cons rfl (.cons rfl (.nil _))⟩, ?_⟩,
    ⟨_, .cons rfl (.cons rfl (.nil _))⟩, ?_⟩
  · rintro ⟨d, hd⟩
    have hexec := (Run.singleton_iff.mp hd).exec_eq (by decide) (by decide)
    have hok : false = true := congrArg (·.1.isOk) hexec
    cases hok
  · rintro ⟨d, hd⟩
    obtain ⟨d₁, hfirst, hd⟩ := Run.cons_iff.mp hd
    obtain rfl := (Prod.mk.inj (hfirst.exec_eq (by decide) (by decide))).2
    have hexec := (Run.singleton_iff.mp hd).exec_eq (by decide) (by decide)
    have hok : false = true := congrArg (·.1.isOk) hexec
    cases hok
  · rintro ⟨d, hd⟩
    obtain ⟨d₁, hfirst, hd⟩ := Run.cons_iff.mp hd
    obtain rfl := (Prod.mk.inj (hfirst.exec_eq (by decide) (by decide))).2
    have hexec := (Run.singleton_iff.mp hd).exec_eq (by decide) (by decide)
    have hok : false = true := congrArg (·.1.isOk) hexec
    cases hok

end Rcptto.Native
