import Rcptto.ForStd.CsvWriter
import Rcptto.Native.Buckets
import Rcptto.Native.Classify

/-!
# Exports

`internal/web/upload.go`: the results of a job as a file, all of them or those of one bucket, as
delimiter-separated text or as a workbook. Text is written as by `encoding/csv`. A workbook is
represented by its cells, which `excelize` writes.
-/

namespace Rcptto.Native.Web

/-! ## Times -/

/-- A number with at least this many digits. -/
def padded (width : Nat) (n : Int) : String :=
  (if n < 0 then "-" else "") ++ .ofList ((Nat.toDigits 10 n.natAbs).leftpad width '0')

/-- The year, the month and the day of the month of a day, which is counted from that of the zero
    time, the first of January of the year 1. The years are counted from March, in eras of 400. -/
def civil (day : Int) : Int × Int × Int :=
  let z := day + 306
  let era := z / 146097
  let doe := z % 146097
  let yoe := (doe - doe / 1460 + doe / 36524 - doe / 146096) / 365
  let doy := doe - (365 * yoe + yoe / 4 - yoe / 100)
  let mp := (5 * doy + 2) / 153
  let month := if mp < 10 then mp + 3 else mp - 9
  let year := yoe + era * 400
  (if month ≤ 2 then year + 1 else year, month, doy - (153 * mp + 2) / 5 + 1)

/-- `t.UTC().Format(time.RFC3339)`. -/
def rfc3339 (t : Int) : String :=
  let sec := t / (10 ^ 9)
  let (year, month, day) := civil (sec / 86400)
  padded 4 year ++ "-" ++ padded 2 month ++ "-" ++ padded 2 day ++ "T" ++
    padded 2 (sec % 86400 / 3600) ++ ":" ++ padded 2 (sec % 3600 / 60) ++ ":" ++
    padded 2 (sec % 60) ++ "Z"

/-! ## Tables -/

/-- `strconv.FormatBool`. -/
def formatBool (b : Bool) : String := if b then "true" else "false"

/-- `exportHeader`. -/
def exportHeader : List String :=
  ["client", "email", "status", "reason", "provider", "catch_all", "role", "disposable",
    "checked_at"]

variable {F : Type}

/-- `exportRow`. -/
def exportRow (r : JobResult F) : List String :=
  [r.label, r.verdict.email, r.verdict.status.toString, r.verdict.subStatus.toString,
    r.verdict.provider, formatBool r.verdict.checks.catchAll, formatBool r.verdict.checks.role,
    formatBool r.verdict.checks.disposable, rfc3339 r.verdict.checkedAt]

/-- The rows that both formats write. -/
def exportTable (results : List (JobResult F)) : List (List String) :=
  exportHeader :: results.map exportRow

/-! ## Files -/

/-- A file: the text of `writeResultsCSV`, or the cells of `writeResultsXLSX`. -/
inductive ExportFile where
  | csv (text : String)
  | xlsx (table : List (List String))
  deriving DecidableEq

/-- `writeResultsCSV`. -/
def writeResultsCSV (results : List (JobResult F)) : ExportFile :=
  .csv (.ofList (Csv.write ',' isSpace
    ((exportTable results).map fun record => record.map String.toList)))

/-- `writeResultsXLSX`. -/
def writeResultsXLSX (results : List (JobResult F)) : ExportFile := .xlsx (exportTable results)

/-- The bucket of a query, if `validBucket` accepts it. -/
def Bucket.ofQuery (query : String) : Option Bucket :=
  if query = "" then some .all
  else [("all", .all), ("safe", .safe), ("risky", .risky), ("undeliverable", .undeliverable),
    ("skipped", .skipped), ("retry", .retry)].lookup query

/-- What a request for an export gets. -/
inductive ExportAnswer where
  | error (status : Nat) (text : String)
  | notFound
  | file (name : String) (file : ExportFile)
  deriving DecidableEq

/-- `handleJobExport`, for a server with or without jobs: `job` is what `Get` returns and `results`
    what `allResults` does, with the texts of their errors. -/
def handleJobExport (errText : JobStoreError → String) (jobs : Bool) (id format bucket : String)
    (job : Except JobStoreError Unit) (results : Except JobStoreError (List (JobResult F))) :
    ExportAnswer :=
  if !jobs then .error 501 "bulk jobs are not enabled on this server"
  else
    match job with
    | .error .errJobNotFound => .notFound
    | .error err => .error 500 ("could not load job: " ++ errText err)
    | .ok () =>
      match Bucket.ofQuery bucket with
      | none =>
        .error 400 "unknown bucket; use safe, risky, undeliverable, skipped, retry, or all"
      | some b =>
        match results with
        | .error err => .error 500 ("could not load results: " ++ errText err)
        | .ok results =>
          let name := if b ≠ .all then id ++ "-" ++ bucket else id
          if format = "csv" then
            .file ("rcptto-" ++ name ++ ".csv") (writeResultsCSV (filterBucket results b))
          else if format = "xlsx" then
            .file ("rcptto-" ++ name ++ ".xlsx") (writeResultsXLSX (filterBucket results b))
          else .error 400 "unsupported export format; use csv or xlsx"

end Rcptto.Native.Web
