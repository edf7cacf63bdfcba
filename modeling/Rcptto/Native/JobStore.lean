import Mathlib.Logic.Function.Basic
import Rcptto.ForStd.Table
import Rcptto.Native.Jobs

/-!
# The two job stores

`internal/store/memory/jobs.go` and the `JobStore` of `internal/store/postgres/postgres.go`, with
the tables of its migrations. The runner uses one or the other through the interface
`store.JobStore`, and so does `allResults` of `internal/web/upload.go`, which pages through the
results of a job. `ListJobs` is left out.

A value of `int` has 64 bits; the columns `total`, `done` and `idx` have 32. A document of type
`JSONB` is the verdict that it decodes to. A time is stored in microseconds, and lies in the range
of its column. Texts are stored unchanged: they hold no NUL. The database may keep the rows of a
table in any order: `Database.Step` reads them in any. A statement that fails takes its transaction
with it.
-/

namespace Rcptto.Native

/-! ## Jobs and results -/

/-- `string(status)`. -/
def JobStatus.toString : JobStatus → String
  | queued => "queued"
  | running => "running"
  | completed => "completed"
  | canceled => "canceled"

/-- `store.JobStatus` as it is handed to a store, which takes any text. -/
inductive StoredStatus where
  | known (status : JobStatus)
  | other (text : String) (h : text ∉ ["queued", "running", "completed", "canceled"])
  deriving DecidableEq

namespace StoredStatus

/-- `string(status)`. -/
def toString : StoredStatus → String
  | known status => status.toString
  | other text _ => text

/-- `store.JobStatus(text)`. -/
def ofString (text : String) : StoredStatus :=
  if hq : text = "queued" then known .queued
  else if hr : text = "running" then known .running
  else if hd : text = "completed" then known .completed
  else if hc : text = "canceled" then known .canceled
  else other text (by simp [hq, hr, hd, hc])

/-- A status is read back from its text. -/
@[simp] theorem ofString_toString (s : StoredStatus) : ofString s.toString = s := by
  cases s with
  | known status => cases status <;> rfl
  | other text h =>
    simp only [List.mem_cons, List.not_mem_nil, or_false, not_or] at h
    simp [toString, ofString, h]

/-- Statuses are told apart by their texts. -/
theorem toString_inj {s s' : StoredStatus} : s.toString = s'.toString ↔ s = s' := by
  constructor
  · intro h
    rw [← ofString_toString s, h, ofString_toString]
  · rintro rfl
    rfl

end StoredStatus

/-- `store.Job`. -/
structure StoredJob where
  id : String
  status : StoredStatus
  total : Int
  done : Int
  createdAt : Int
  completedAt : Option Int
  deriving DecidableEq

/-- `store.JobStats`. A key that a map does not have counts 0. -/
@[ext] structure JobStats where
  total : Nat := 0
  byStatus : String → Nat := fun _ => 0
  bySubStatus : String → Nat := fun _ => 0
  byProvider : String → Nat := fun _ => 0
  probed : Nat := 0
  notProbed : Nat := 0

/-- What a verdict is counted under. -/
structure StatsKey where
  status : String
  subStatus : String
  provider : String
  probed : Bool
  deriving DecidableEq

/-- The loop bodies of both `Stats`: `n` more results that are counted under one key. -/
def JobStats.add (s : JobStats) (k : StatsKey) (n : Nat) : JobStats where
  total := s.total + n
  byStatus := Function.update s.byStatus k.status (s.byStatus k.status + n)
  bySubStatus := Function.update s.bySubStatus k.subStatus (s.bySubStatus k.subStatus + n)
  byProvider := Function.update s.byProvider k.provider (s.byProvider k.provider + n)
  probed := if k.probed then s.probed + n else s.probed
  notProbed := if k.probed then s.notProbed else s.notProbed + n

/-- The errors of the stores: an unknown job, a value that `json.Marshal` refuses, and those of the
    database. A panic of the adapter counts as one. -/
inductive JobStoreError where
  | errJobNotFound
  | unsupportedValue
  | outOfRange
  | duplicateKey
  | negativeLimit
  | panic
  deriving DecidableEq

/-- The calls of `store.JobStore`. -/
inductive JobCall (F : Type) where
  | createJob (job : StoredJob)
  | getJob (id : String)
  | appendResult (id : String) (r : JobResult F)
  | setStatus (id : String) (status : StoredStatus)
  | results (id : String) (cursor limit : Int)
  | stats (id : String)

/-- What a call returns when it succeeds. -/
inductive JobAnswer (F : Type) where
  | done
  | job (job : StoredJob)
  | page (items : List (JobResult F)) (next : Int)
  | stats (stats : JobStats)

/-- The value of an `int` after arithmetic that may overflow. -/
def wrapInt (n : Int) : Int := (n + 2 ^ 63) % 2 ^ 64 - 2 ^ 63

section Stores

variable {F : Type}

/-! ## Memory -/

/-- `jobEntry`. -/
structure StoredEntry (F : Type) where
  job : StoredJob
  results : List (JobResult F) := []

/-- `memory.JobStore`. -/
abbrev MemoryJobs (F : Type) := String → Option (StoredEntry F)

/-- The key of the loop of `Stats`. -/
def Verdict.statsKey (v : Verdict F) : StatsKey where
  status := v.status.toString
  subStatus := v.subStatus.toString
  provider := if v.provider = "" then "unknown" else v.provider
  probed := v.checks.smtp.probed

/-- The loop of `Stats` over the results. -/
def JobStats.ofResults (results : List (JobResult F)) : JobStats :=
  results.foldl (fun s r => s.add r.verdict.statsKey 1) {}

namespace StoredEntry

/-- `AppendResult`. -/
def appendResult (e : StoredEntry F) (now : Int) (r : JobResult F) : StoredEntry F :=
  let job := { e.job with done := e.job.done + 1 }
  { results := e.results ++ [r]
    job :=
      if job.status ≠ .known .canceled ∧ job.done ≥ job.total then
        { job with status := .known .completed, completedAt := some now }
      else job }

/-- `SetStatus`. -/
def setStatus (e : StoredEntry F) (now : Int) (status : StoredStatus) : StoredEntry F :=
  { e with
    job := { e.job with
      status := status
      completedAt :=
        if (status = .known .completed ∨ status = .known .canceled) ∧ e.job.completedAt = none then
          some now
        else e.job.completedAt } }

/-- `Results`. -/
def page (e : StoredEntry F) (cursor limit : Int) :
    Except JobStoreError (List (JobResult F) × Int) :=
  let cursor := if cursor < 0 then 0 else cursor
  let limit := if limit ≤ 0 then (e.results.length : Int) else limit
  if cursor ≥ e.results.length then .ok ([], 0)
  else
    let stop := wrapInt (cursor + limit)
    let stop := if stop > e.results.length then (e.results.length : Int) else stop
    -- `make` takes no length below zero
    if stop < cursor then .error .panic
    else
      .ok ((e.results.drop cursor.toNat).take (stop - cursor).toNat,
        if stop < e.results.length then stop else 0)

end StoredEntry

/-- A call of the memory adapter at the time `now`. -/
def MemoryJobs.exec (s : MemoryJobs F) (now : Int) :
    JobCall F → Except JobStoreError (JobAnswer F) × MemoryJobs F
  | .createJob job => (.ok .done, Function.update s job.id (some { job := job }))
  | .getJob id =>
    match s id with
    | none => (.error .errJobNotFound, s)
    | some e => (.ok (.job e.job), s)
  | .appendResult id r =>
    match s id with
    | none => (.error .errJobNotFound, s)
    | some e => (.ok .done, Function.update s id (some (e.appendResult now r)))
  | .setStatus id status =>
    match s id with
    | none => (.error .errJobNotFound, s)
    | some e => (.ok .done, Function.update s id (some (e.setStatus now status)))
  | .results id cursor limit =>
    match s id with
    | none => (.error .errJobNotFound, s)
    | some e => ((e.page cursor limit).map fun p => .page p.1 p.2, s)
  | .stats id =>
    match s id with
    | none => (.error .errJobNotFound, s)
    | some e => (.ok (.stats (.ofResults e.results)), s)

/-- `Results` of the memory adapter. -/
def MemoryJobs.results (s : MemoryJobs F) (id : String) (cursor limit : Int) :
    Except JobStoreError (List (JobResult F) × Int) :=
  match s id with
  | none => .error .errJobNotFound
  | some e => e.page cursor limit

/-- A call of `Results` changes nothing. -/
theorem MemoryJobs.exec_results (s : MemoryJobs F) (now : Int) (id : String) (cursor limit : Int) :
    s.exec now (.results id cursor limit) =
      ((s.results id cursor limit).map fun p => .page p.1 p.2, s) := by
  rw [exec, results]
  cases s id with
  | none => rfl
  | some e => rfl

/-! ## Exports -/

/-- `exportPageSize`. -/
def exportPageSize : Int := 500

/-- The loop of `allResults`, from the `n`-th request on; `request n` is `Results` of the store at
    that time. The loop is not bounded, so the number of requests is. -/
def allResultsLoop {R E : Type} (request : Nat → Int → Int → Except E (List R × Int)) :
    Nat → Nat → Int → List R → Option (Except E (List R))
  | 0, _, _, _ => none
  | fuel + 1, n, cursor, out =>
    match request n cursor exportPageSize with
    | .error err => some (.error err)
    | .ok (page, next) =>
      let out := out ++ page
      if next = 0 || page.length = 0 then some (.ok out)
      else allResultsLoop request fuel (n + 1) next out

/-- `allResults`, if it gets by with this number of requests. -/
def allResults {R E : Type} (request : Nat → Int → Int → Except E (List R × Int)) (fuel : Nat) :
    Option (Except E (List R)) :=
  allResultsLoop request fuel 0 0 []

/-! ## PostgreSQL -/

/-- A value of type `INTEGER`. -/
def int4 (n : Int) : Bool := -2 ^ 31 ≤ n && n < 2 ^ 31

/-- A value of type `TIMESTAMPTZ`, as the driver sends it. -/
def timestamptz (t : Int) : Int := t / 1000 * 1000

/-- A row of `jobs`. -/
structure JobRow where
  id : String
  status : String
  total : Int
  done : Int
  createdAt : Int
  completedAt : Option Int
  deriving DecidableEq

/-- A row of `job_results`. -/
structure ResultRow (F : Type) where
  jobID : String
  idx : Int
  verdict : Verdict F
  label : String

/-- The two tables. -/
structure Database (F : Type) where
  jobs : List JobRow := []
  results : List (ResultRow F) := []

/-- What the adapter depends on besides its database: the verdicts that `json.Marshal` accepts, and
    the largest capacity that `make` accepts for a slice of results. -/
structure Platform (F : Type) where
  marshals : Verdict F → Bool
  maxCap : Int
  maxCap_lt : maxCap < 2 ^ 62

/-- The values of the `INSERT` of `CreateJob`. -/
def StoredJob.row (job : StoredJob) : JobRow where
  id := job.id
  status := job.status.toString
  total := job.total
  done := job.done
  createdAt := timestamptz job.createdAt
  completedAt := job.completedAt.map timestamptz

/-- `scanJob`, for a row. -/
def JobRow.scan (row : JobRow) : StoredJob where
  id := row.id
  status := .ofString row.status
  total := row.total
  done := row.done
  createdAt := row.createdAt
  completedAt := row.completedAt

/-- `verdict->>'provider'`; the field is left out of the document when it is empty. -/
def Verdict.jsonProvider (v : Verdict F) : Option String :=
  if v.provider = "" then none else some v.provider

/-- The columns that `Stats` groups by. The other fields are always in the document. -/
def ResultRow.statsKey (row : ResultRow F) : StatsKey where
  status := row.verdict.status.toString
  subStatus := row.verdict.subStatus.toString
  provider := (row.verdict.jsonProvider.filter (· ≠ "")).getD "unknown"
  probed := row.verdict.checks.smtp.probed

namespace Database

/-- The rows of `jobs` `WHERE id = $1`. -/
def jobRows (d : Database F) (id : String) : List JobRow := d.jobs.filter (·.id == id)

/-- The rows of `job_results` `WHERE job_id = $1`. -/
def resultRows (d : Database F) (id : String) : List (ResultRow F) :=
  d.results.filter (·.jobID == id)

/-- The row that `QueryRowContext` scans. -/
def selectJob (d : Database F) (id : String) : Option JobRow := (d.jobRows id).head?

/-- `UPDATE jobs SET … WHERE id = $1`. -/
def updateJob (d : Database F) (id : String) (f : JobRow → JobRow) : Database F :=
  { d with jobs := Table.update (·.id == id) f d.jobs }

/-- `CreateJob`. -/
def createJob (d : Database F) (job : StoredJob) : Except JobStoreError (Database F) :=
  if !int4 job.total || !int4 job.done then .error .outOfRange
  else if d.jobs.any (·.id == job.id) then .error .duplicateKey
  else .ok { d with jobs := d.jobs ++ [job.row] }

/-- `GetJob`. -/
def getJob (d : Database F) (id : String) : Except JobStoreError StoredJob :=
  match d.selectJob id with
  | none => .error .errJobNotFound
  | some row => .ok row.scan

/-- `AppendResult`. -/
def appendResult (d : Database F) (p : Platform F) (now : Int) (id : String) (r : JobResult F) :
    Except JobStoreError (Database F) :=
  if !p.marshals r.verdict then .error .unsupportedValue
  else
    match d.selectJob id with
    | none => .error .errJobNotFound
    | some row =>
      let done := row.done + 1
      if !int4 done then .error .outOfRange
      else
        let d := d.updateJob id fun row => { row with done := done }
        -- `PRIMARY KEY (job_id, idx)`
        if d.results.any fun s => s.jobID == id && s.idx == done - 1 then .error .duplicateKey
        else
          let d := { d with results := d.results ++
            [{ jobID := id, idx := done - 1, verdict := r.verdict, label := r.label }] }
          .ok <|
            if row.status ≠ JobStatus.canceled.toString ∧ done ≥ row.total then
              d.updateJob id fun row =>
                { row with
                  status := JobStatus.completed.toString
                  completedAt := some (timestamptz now) }
            else d

/-- `Results`. -/
def page (d : Database F) (p : Platform F) (id : String) (cursor limit : Int) :
    Except JobStoreError (List (JobResult F) × Int) :=
  match d.selectJob id with
  | none => .error .errJobNotFound
  | some _ =>
    let cursor := if cursor < 0 then 0 else cursor
    let limit := if limit ≤ 0 then 1000 else limit
    -- one row more than asked for shows whether there is another page
    let fetch := wrapInt (limit + 1)
    if fetch < 0 then .error .negativeLimit
    -- `make` with the limit as the capacity
    else if limit > p.maxCap then .error .panic
    else
      let rows := ((Table.orderBy (·.idx) (d.resultRows id)).drop cursor.toNat).take fetch.toNat
      let items : List (JobResult F) := rows.map fun s => { label := s.label, verdict := s.verdict }
      .ok <|
        if items.length > limit then (items.take limit.toNat, wrapInt (cursor + limit))
        else (items, 0)

/-- `SetStatus`. -/
def setStatus (d : Database F) (now : Int) (id : String) (status : StoredStatus) :
    Except JobStoreError (Database F) :=
  let affected := (d.jobRows id).length
  let d := d.updateJob id fun row =>
    { row with
      status := status.toString
      completedAt :=
        if status.toString ∈ [JobStatus.completed.toString, JobStatus.canceled.toString] ∧
            row.completedAt = none then
          some (timestamptz now)
        else row.completedAt }
  if affected = 0 then .error .errJobNotFound else .ok d

/-- `Stats`. -/
def stats (d : Database F) (id : String) : Except JobStoreError JobStats :=
  match d.selectJob id with
  | none => .error .errJobNotFound
  | some _ =>
    .ok ((Table.groupBy ResultRow.statsKey (d.resultRows id)).foldl (fun s g => s.add g.1 g.2) {})

/-- The answer of a call that changes the tables. -/
def commit (d : Database F) :
    Except JobStoreError (Database F) → Except JobStoreError (JobAnswer F) × Database F
  | .ok d' => (.ok .done, d')
  | .error err => (.error err, d)

/-- A call of the Postgres adapter at the time `now`. -/
def exec (d : Database F) (p : Platform F) (now : Int) :
    JobCall F → Except JobStoreError (JobAnswer F) × Database F
  | .createJob job => d.commit (d.createJob job)
  | .getJob id => ((d.getJob id).map .job, d)
  | .appendResult id r => d.commit (d.appendResult p now id r)
  | .setStatus id status => d.commit (d.setStatus now id status)
  | .results id cursor limit => ((d.page p id cursor limit).map fun q => .page q.1 q.2, d)
  | .stats id => ((d.stats id).map .stats, d)

/-- The same rows, in any order. -/
def Perm (d d' : Database F) : Prop := d.jobs.Perm d'.jobs ∧ d.results.Perm d'.results

end Database

/-- A call with the time at which it is made and its answer. -/
structure JobEvent (F : Type) where
  now : Int
  call : JobCall F
  answer : Except JobStoreError (JobAnswer F)

/-- A step of the memory adapter. -/
def MemoryJobs.Step (s : MemoryJobs F) (e : JobEvent F) (s' : MemoryJobs F) : Prop :=
  s.exec e.now e.call = (e.answer, s')

/-- A step of the Postgres adapter. -/
def Database.Step (p : Platform F) (d : Database F) (e : JobEvent F) (d' : Database F) : Prop :=
  ∃ d₁, d.Perm d₁ ∧ d₁.exec p e.now e.call = (e.answer, d')

end Stores

end Rcptto.Native
