import Rcptto.Native.JobStore

/-!
# Download buckets

`internal/web/buckets.go`: the results of a job grouped by what to do with them. The page of a job
shows a count for each group, computed from the statistics of the job, and the download of a group
filters the results themselves.
-/

namespace Rcptto.Native.Web

/-- `Bucket`, as far as `validBucket` accepts it. -/
inductive Bucket where
  | all
  | safe
  | risky
  | undeliverable
  | skipped
  | retry
  deriving DecidableEq

/-- `bucketLabels`. -/
def Bucket.label : Bucket → String
  | all => "All results"
  | safe => "Safe to send"
  | risky => "Risky"
  | undeliverable => "Do not send"
  | skipped => "Not checked"
  | retry => "Retry later"

/-- `bucketOrder`. -/
def bucketOrder : List Bucket := [.safe, .risky, .skipped, .retry, .undeliverable, .all]

/-- `classify`. The sub-status is looked at first. -/
def classify {F : Type} (v : Verdict F) : Bucket :=
  match v.subStatus with
  | .roleAccount => .safe
  | .providerSkipped => .skipped
  | _ =>
    match v.status with
    | .deliverable => .safe
    | .risky => .risky
    | .undeliverable => .undeliverable
    | _ => .retry

/-- The map that `bucketCounts` starts with. -/
def bucketTotals (stats : JobStats) : Bucket → Int :=
  let role := stats.bySubStatus SubStatus.roleAccount.toString
  let skipped := stats.bySubStatus SubStatus.providerSkipped.toString
  fun
  | .all => stats.total
  | .safe => stats.byStatus "deliverable" + role
  | .risky => stats.byStatus "risky" - role - skipped
  | .undeliverable => stats.byStatus "undeliverable"
  | .skipped => skipped
  | .retry => stats.byStatus "unknown"

/-- `bucketCounts`: no count is negative. -/
def bucketCounts (stats : JobStats) (b : Bucket) : Int :=
  if bucketTotals stats b < 0 then 0 else bucketTotals stats b

/-- `bucketView`. -/
structure BucketView where
  bucket : Bucket
  label : String
  count : Int
  deriving DecidableEq

/-- `bucketViews`. -/
def bucketViews (stats : JobStats) : List BucketView :=
  bucketOrder.map fun b => { bucket := b, label := b.label, count := bucketCounts stats b }

/-- `filterBucket`. -/
def filterBucket {F : Type} (results : List (JobResult F)) (b : Bucket) : List (JobResult F) :=
  if b = .all then results else results.filter fun r => classify r.verdict = b

end Rcptto.Native.Web
