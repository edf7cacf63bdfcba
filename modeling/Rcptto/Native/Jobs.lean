import Rcptto.ForStd.Run
import Rcptto.Native.Classify

/-!
# Bulk jobs

`internal/jobs/runner.go` with the job store of `internal/store/memory/jobs.go`. `Submit`
deduplicates the rows, creates the job, registers its cancel function and starts a goroutine
that runs `process` and then `finish`. `process` starts one worker for each address, as many
at a time as there are slots. Any number of `Cancel` calls can be made at any time.

`JobRun` is the state of one job with all of these under way, and `JobRun.Step` one step of
it: every call to the store, every operation on the map of cancel functions, on the context
and on the channel of slots is a step of its own. Jobs share nothing but the two maps, in
which each of them has its own entry; the job identifiers are random and are taken to differ.

`strings.ToLower` needs the Unicode tables; it is left open here as the function `lower`.
A call of the verifier returns any verdict or an error. The calls to the store do not fail.
-/

namespace Rcptto.Native

/-! ## Rows -/

/-- `jobs.Row`. -/
structure Row where
  label : String
  email : String
  deriving DecidableEq

/-- The loop of `dedup` over the rest of the rows; `seen` are the keys so far. -/
def dedupLoop (lower : String → String) : List String → List Row → List Row
  | _, [] => []
  | seen, row :: rows =>
    let email := trimSpace row.email
    if email = "" then dedupLoop lower seen rows
    else
      let label := trimSpace row.label
      let key := lower label ++ "\x00" ++ lower email
      if key ∈ seen then dedupLoop lower seen rows
      else { label := label, email := email } :: dedupLoop lower (key :: seen) rows

/-- `dedup`. -/
def dedup (lower : String → String) (rows : List Row) : List Row := dedupLoop lower [] rows

/-- The grouping at the start of `process`: the addresses in the order in which they first
    appear, and the labels of each. -/
structure Grouping where
  order : List String := []
  byEmail : String → Option (List String) := fun _ => none

/-- The body of the loop that groups the rows. -/
def Grouping.add (lower : String → String) (g : Grouping) (row : Row) : Grouping :=
  let key := lower row.email
  { order := if (g.byEmail key).isNone then g.order ++ [row.email] else g.order
    byEmail := Function.update g.byEmail key (some ((g.byEmail key).getD [] ++ [row.label])) }

/-- The grouping of the rows. -/
def group (lower : String → String) (rows : List Row) : Grouping := rows.foldl (.add lower) {}

/-! ## The store -/

/-- `store.JobStatus`. -/
inductive JobStatus where
  | queued
  | running
  | completed
  | canceled
  deriving DecidableEq

/-- `job.Status == store.JobCompleted || job.Status == store.JobCanceled`. -/
def JobStatus.terminal (s : JobStatus) : Bool := s = .completed || s = .canceled

/-- `store.Job`, without its identifier. -/
structure Job where
  status : JobStatus
  total : Nat
  done : Nat := 0
  createdAt : Int
  completedAt : Option Int := none
  deriving DecidableEq

/-- `store.Result`. -/
structure JobResult (F : Type) where
  label : String
  verdict : Verdict F

/-- `jobEntry`. -/
structure JobEntry (F : Type) where
  job : Job
  results : List (JobResult F) := []

namespace JobEntry

variable {F : Type}

/-- `AppendResult`. -/
def appendResult (e : JobEntry F) (r : JobResult F) (now : Int) : JobEntry F :=
  let job := { e.job with done := e.job.done + 1 }
  { results := e.results ++ [r]
    job :=
      -- a canceled job stays canceled when its last results come in
      if job.status ≠ .canceled ∧ job.done ≥ job.total then
        { job with status := .completed, completedAt := some now }
      else job }

/-- `SetStatus`. -/
def setStatus (e : JobEntry F) (status : JobStatus) (now : Int) : JobEntry F :=
  { e with
    job := { e.job with
      status := status
      completedAt :=
        if status.terminal ∧ e.job.completedAt.isNone then some now else e.job.completedAt } }

end JobEntry

/-! ## Submission -/

/-- `Runner`, as far as it limits jobs. -/
structure Runner where
  concurrency : Nat
  maxEmails : Nat
  concurrency_pos : 0 < concurrency

/-- `New`: values that are not positive fall back to the defaults. -/
def Runner.new (concurrency maxEmails : Int) : Runner where
  concurrency := if concurrency ≤ 0 then 10 else concurrency.toNat
  maxEmails := if maxEmails ≤ 0 then 100000 else maxEmails.toNat
  concurrency_pos := by split <;> omega

/-- `SetLimits`: a value that is not positive leaves the limit alone. -/
def Runner.setLimits (r : Runner) (concurrency maxEmails : Int) : Runner where
  concurrency := if concurrency > 0 then concurrency.toNat else r.concurrency
  maxEmails := if maxEmails > 0 then maxEmails.toNat else r.maxEmails
  concurrency_pos := by
    have := r.concurrency_pos
    split <;> omega

/-- The errors of `Submit` itself. -/
inductive SubmitError where
  | errNoEmails
  | errTooManyEmails
  deriving DecidableEq

/-- What `Submit` has accepted: the deduplicated rows, and the number of slots that
    `process` will make for them. -/
structure Batch where
  lower : String → String
  rows : List Row
  concurrency : Nat
  rows_ne_nil : rows ≠ []
  concurrency_pos : 0 < concurrency

/-- `Submit` up to the creation of the job. -/
def Runner.submit (r : Runner) (lower : String → String) (rows : List Row) :
    Except SubmitError Batch :=
  if h : dedup lower rows = [] then .error .errNoEmails
  else if (dedup lower rows).length > r.maxEmails then .error .errTooManyEmails
  else .ok
    { lower := lower
      rows := dedup lower rows
      concurrency := r.concurrency
      rows_ne_nil := h
      concurrency_pos := r.concurrency_pos }

namespace Batch

/-- The addresses to verify. -/
def order (b : Batch) : List String := (group b.lower b.rows).order

/-- `byEmail[strings.ToLower(email)]`. -/
def labels (b : Batch) (email : String) : List String :=
  ((group b.lower b.rows).byEmail (b.lower email)).getD []

end Batch

/-! ## A job under way -/

section JobRun

variable {F : Type}

/-- Where the goroutine of a job stands: `Submit` up to its start, `process`, `finish`. -/
inductive Phase where
  /-- `Submit` has not created the job yet. -/
  | creating
  /-- The job is in the store; its cancel function is still to be registered. -/
  | registering
  /-- The loop of `process` over the addresses that are left. -/
  | dispatching (rest : List String)
  /-- `wg.Wait` of `process`. -/
  | waiting
  /-- `finish`, before it releases the cancel function. -/
  | releasing
  /-- `finish`, before it reads the job. -/
  | checking
  /-- `finish` has read a running job and is about to mark it canceled. -/
  | marking
  | finished
  deriving DecidableEq

/-- Where a worker stands. It holds a slot until it is `leaving`. -/
inductive Worker (F : Type) where
  | starting (email : String)
  | verifying (email : String)
  /-- The verdict is there, and is still to be recorded under these labels. -/
  | recording (v : Verdict F) (labels : List String)
  /-- The slot is free again, but the wait group does not know yet. -/
  | leaving

/-- The worker holds a slot. -/
def Worker.holding : Worker F → Bool
  | .leaving => false
  | _ => true

/-- Where a call of `Cancel` stands that has read a job that is not finished. -/
inductive CancelCall where
  | read
  /-- It has found the cancel function. -/
  | found
  /-- There was no cancel function. -/
  | absent
  /-- It has called the cancel function. -/
  | signalled
  deriving DecidableEq

/-- One job: its entry in the store, whether its cancel function is registered, whether its
    context is canceled, its goroutine, its workers, and the calls of `Cancel` under way. -/
structure JobRun (F : Type) where
  entry : Option (JobEntry F) := none
  registered : Bool := false
  canceled : Bool := false
  phase : Phase := .creating
  workers : List (Worker F) := []
  cancels : List CancelCall := []

/-- `len(sem)`, the number of slots in use. -/
def JobRun.slots (s : JobRun F) : Nat := s.workers.countP Worker.holding

/-- The verdict that a worker records: that of `Verify`, or one made up for its error. -/
def outcome [OfScientific F] (email : String) (now : Int) : Option (Verdict F) → Verdict F
  | some v => v
  | none =>
    { email := email
      normalized := ""
      status := .unknown
      subStatus := .temporaryFailure
      confidence := 0.0
      checks := {}
      provider := ""
      engine := ""
      egressID := ""
      checkedAt := now }

/-- What can happen next. The number `k` is the position of a worker, or of a call of
    `Cancel`; `now` is a clock reading. -/
inductive JobAction (F : Type) where
  | createJob (now : Int)
  | register
  | dispatch
  | stop
  | drain
  | verify (k : Nat) (email : String)
  | verified (k : Nat) (email : String) (res : Option (Verdict F)) (now : Int)
  | append (k : Nat) (now : Int)
  | release (k : Nat)
  | exit (k : Nat)
  | join
  | forget
  | check
  | mark (now : Int)
  | cancelRead
  | cancelLookup (k : Nat)
  | cancelSignal (k : Nat)
  | cancelSet (k : Nat) (now : Int)

/-- The action is a step of a `Cancel`. -/
def JobAction.isCancel : JobAction F → Bool
  | .cancelRead | .cancelLookup _ | .cancelSignal _ | .cancelSet _ _ => true
  | _ => false

/-- One step of a job. -/
def JobRun.Step [OfScientific F] (b : Batch) (s : JobRun F) (a : JobAction F) (s' : JobRun F) :
    Prop :=
  match a with
  | .createJob now =>
    s.phase = .creating ∧
      s' = { s with
        entry := some { job := { status := .running, total := b.rows.length, createdAt := now } }
        phase := .registering }
  | .register =>
    s.phase = .registering ∧ s' = { s with registered := true, phase := .dispatching b.order }
  -- the two branches of the `select`, either of which is taken when both are ready
  | .dispatch =>
    ∃ email rest, s.phase = .dispatching (email :: rest) ∧ s.slots < b.concurrency ∧
      s' = { s with phase := .dispatching rest, workers := s.workers ++ [.starting email] }
  | .stop =>
    ∃ email rest, s.phase = .dispatching (email :: rest) ∧ s.canceled = true ∧
      s' = { s with phase := .waiting }
  | .drain => s.phase = .dispatching [] ∧ s' = { s with phase := .waiting }
  | .verify k email =>
    s.workers[k]? = some (.starting email) ∧
      s' = { s with workers := s.workers.set k (.verifying email) }
  | .verified k email res now =>
    s.workers[k]? = some (.verifying email) ∧
      s' = { s with
        workers := s.workers.set k (.recording (outcome email now res) (b.labels email)) }
  | .append k now =>
    ∃ v label labels, s.workers[k]? = some (.recording v (label :: labels)) ∧
      s' = { s with
        entry := s.entry.map (·.appendResult { label := label, verdict := v } now)
        workers := s.workers.set k (.recording v labels) }
  | .release k =>
    ∃ v, s.workers[k]? = some (.recording v []) ∧
      s' = { s with workers := s.workers.set k .leaving }
  | .exit k => s.workers[k]? = some .leaving ∧ s' = { s with workers := s.workers.eraseIdx k }
  | .join => s.phase = .waiting ∧ s.workers = [] ∧ s' = { s with phase := .releasing }
  -- `finish` calls the cancel function itself
  | .forget =>
    s.phase = .releasing ∧
      s' = { s with
        canceled := s.canceled || s.registered
        registered := false
        phase := .checking }
  | .check =>
    s.phase = .checking ∧
      s' = { s with
        phase := if s.entry.any (·.job.status = .running) then .marking else .finished }
  | .mark now =>
    s.phase = .marking ∧
      s' = { s with entry := s.entry.map (·.setStatus .canceled now), phase := .finished }
  -- an unknown job is an error, and a finished one is left alone
  | .cancelRead =>
    s' = if s.entry.any (!·.job.status.terminal) then { s with cancels := s.cancels ++ [.read] }
      else s
  | .cancelLookup k =>
    s.cancels[k]? = some .read ∧
      s' = { s with cancels := s.cancels.set k (if s.registered then .found else .absent) }
  | .cancelSignal k =>
    s.cancels[k]? = some .found ∧
      s' = { s with canceled := true, cancels := s.cancels.set k .signalled }
  -- the status is set whatever has become of the job in the meantime
  | .cancelSet k now =>
    (s.cancels[k]? = some .absent ∨ s.cancels[k]? = some .signalled) ∧
      s' = { s with
        entry := s.entry.map (·.setStatus .canceled now)
        cancels := s.cancels.eraseIdx k }

/-- An execution of a job. -/
abbrev JobRun.Runs [OfScientific F] (b : Batch) (s : JobRun F) (as : List (JobAction F))
    (s' : JobRun F) : Prop :=
  Run (JobRun.Step b) s as s'

/-- The calls of the verifier in an execution, in the order in which they start. -/
def verifyCalls (as : List (JobAction F)) : List String :=
  as.filterMap fun
    | .verify _ email => some email
    | _ => none

/-- The calls of the verifier that have returned, each with the verdict to be recorded. -/
def verdicts [OfScientific F] (as : List (JobAction F)) : List (String × Verdict F) :=
  as.filterMap fun
    | .verified _ email res now => some (email, outcome email now res)
    | _ => none

end JobRun

end Rcptto.Native
