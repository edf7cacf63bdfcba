import Rcptto.Native.Jobs

/-!
# Uploaded lists

`internal/web/upload.go` with the sheets of `internal/ingest/ingest.go`. A list that is uploaded is
parsed and staged under a random token, and the operator confirms which columns to use. The
confirmation looks the token up, submits the list as a job, and drops the token.

Each of these is a step of its own: `get` and `drop` of the cache of uploads are separate critical
sections, and the call of `Submit`, which creates the job in the store, lies between them. Any
number of requests can be under way. The tokens are random and are taken to differ.
-/

namespace Rcptto.Native

/-! ## Sheets -/

/-- `ingest.Sheet`. -/
structure Sheet where
  header : List String
  rows : List (List String)
  deriving DecidableEq

namespace Sheet

/-- The cell of a row in this column, without white space around it, if the row is long enough. -/
def cell (row : List String) (col : Int) : Option String :=
  if col < 0 then none else row[col.toNat]?.map trimSpace

/-- `Extract`. -/
def extract (s : Sheet) (emailCol labelCol : Int) : List Row :=
  s.rows.filterMap fun row =>
    match cell row emailCol with
    | none => none
    | some email =>
      if email = "" then none
      else some { label := (cell row labelCol).getD "", email := email }

/-- `PreviewRows`. -/
def previewRows : Nat := 5

/-- `Preview`. -/
def preview (s : Sheet) : List (List String) := s.rows.take previewRows

end Sheet

/-- `LooksLikeEmail`. -/
def looksLikeEmail (s : String) : Bool :=
  let cs := (trimSpace s).toList
  let user := cs.takeWhile (· ≠ '@')
  let domain := (cs.dropWhile (· ≠ '@')).drop 1
  user ≠ [] && domain ≠ [] && !cs.any (fun c => c = ' ' || c = '\t') && '.' ∈ domain

namespace Web

/-! ## The cache of uploads -/

/-- `pendingUpload`. -/
structure PendingUpload where
  filename : String
  sheet : Sheet
  created : Int
  deriving DecidableEq

/-- `pendingTTL`. -/
def pendingTTL : Int := 15 * minute

/-- `maxPendingUpload`. -/
def maxPendingUpload : Nat := 8

/-- The map of `uploadCache`, as the list of its entries. -/
abbrev UploadCache := List (String × PendingUpload)

namespace UploadCache

/-- `evictLocked`. -/
def evict (items : UploadCache) (now : Int) : UploadCache :=
  items.filter fun kv => ¬ kv.2.created < now - pendingTTL

/-- `delete(c.items, token)`. -/
def delete (items : UploadCache) (token : String) : UploadCache :=
  items.filter fun kv => kv.1 ≠ token

/-- The loop of `put` that looks for the oldest upload, for a map that is iterated in this order. -/
def oldestKey (order : UploadCache) : String :=
  (order.foldl (fun (acc : String × Option Int) kv =>
    if acc.2.all (kv.2.created < ·) then (kv.1, some kv.2.created) else acc) ("", none)).1

/-- The loop of `put` that drops the oldest uploads until there is room. Go iterates over a map in
    any order. -/
inductive MakesRoom : UploadCache → UploadCache → Prop where
  | done {items : UploadCache} (h : items.length < maxPendingUpload) : MakesRoom items items
  | drop {items order items' : UploadCache} (h : maxPendingUpload ≤ items.length)
    (horder : order.Perm items) (hrest : MakesRoom (items.delete (oldestKey order)) items') :
    MakesRoom items items'

end UploadCache

/-! ## Confirmations -/

/-- `uploadPreview`. -/
structure UploadPreview where
  token : String
  filename : String
  header : List String
  rows : List (List String)
  columns : List Nat
  emailCol : Int
  labelCol : Int
  total : Nat
  error : String := ""
  deriving DecidableEq

/-- `buildPreview`. -/
def buildPreview (token : String) (u : PendingUpload) (emailCol labelCol : Int) :
    UploadPreview where
  token := token
  filename := u.filename
  header := u.sheet.header
  rows := u.sheet.preview
  columns := .range ((u.sheet.preview.map List.length).foldl max 0 |> max u.sheet.header.length)
  emailCol := emailCol
  labelCol := labelCol
  total := u.sheet.rows.length

/-- What the operator is shown. -/
inductive UploadAnswer where
  | notImplemented (text : String)
  | verdictError (text : String)
  | uploadPreview (p : UploadPreview)
  | jobCreated
  deriving DecidableEq

/-- The form of a confirmation; a column is what `strconv.Atoi` reads, if it succeeds. -/
structure ConfirmForm where
  token : String
  emailCol : Option Int
  labelCol : Option Int
  deriving DecidableEq

/-- The beginning of `handleUploadConfirm`, for a server with or without jobs and a form that can be
    parsed or not. -/
def confirmForm (jobs : Bool) (form : Option ConfirmForm) : Except UploadAnswer ConfirmForm :=
  if !jobs then .error (.notImplemented "bulk jobs are not enabled on this server")
  else
    match form with
    | none => .error (.verdictError "invalid form submission")
    | some form => .ok form

/-- The closure `retry` of `handleUploadConfirm`. -/
def retry (token : String) (u : PendingUpload) (msg : String) : UploadAnswer :=
  .uploadPreview { buildPreview token u 0 (-1) with error := msg }

/-- `handleUploadConfirm` between the lookup and `Submit`: the rows to submit. -/
def confirmRows (form : ConfirmForm) (u : PendingUpload) : Except UploadAnswer (List Row) :=
  match form.emailCol.filter (0 ≤ ·) with
  | none => .error (retry form.token u "Choose which column holds the email address.")
  | some emailCol =>
    let extracted := u.sheet.extract emailCol (form.labelCol.getD (-1))
    if extracted.length = 0 then
      .error (retry form.token u "No values found in the selected column — pick a different one.")
    else if (extracted.filter fun e => looksLikeEmail e.email).length = 0 then
      .error (retry form.token u ("That column does not look like email addresses — " ++
        "pick the column containing them."))
    else .ok extracted

/-- `handleUploadConfirm` up to `Submit`, with the uploads that are left after the lookup. -/
def confirmLookup (items : UploadCache) (form : ConfirmForm) :
    Except UploadAnswer (PendingUpload × List Row) :=
  match items.lookup form.token with
  | none => .error (.verdictError "this upload expired; please choose the file again")
  | some u => (confirmRows form u).map fun rows => (u, rows)

/-- The text of an error of `Submit`. -/
def submitErrorText : SubmitError → String
  | .errNoEmails => "no emails to verify"
  | .errTooManyEmails => "too many emails in one job"

/-- `Submit`, which fails itself or in the store, where `CreateJob` returns `createErr`. -/
def submitRows (r : Runner) (lower : String → String) (createErr : Option String)
    (rows : List Row) : Except String Batch :=
  match r.submit lower rows with
  | .error err => .error (submitErrorText err)
  | .ok batch =>
    match createErr with
    | some err => .error err
    | none => .ok batch

/-- How far a confirmation has come. -/
inductive Confirm where
  | looking (form : ConfirmForm)
  | submitting (token : String) (u : PendingUpload) (rows : List Row)
  | dropping (token : String)

/-! ## Requests under way -/

/-- The cache of uploads with its clock, the tokens that were given out so far, and the
    confirmations under way. -/
structure Uploads where
  items : UploadCache
  clock : Int
  issued : List String
  confirms : Nat → Option Confirm

/-- The steps of the requests, and of the clock. -/
inductive UploadEvent where
  | tick (now : Int)
  | stage (token : String) (u : PendingUpload)
  | confirm (i : Nat) (jobs : Bool) (form : Option ConfirmForm)
  | lookup (i : Nat) (token : String) (out : Except UploadAnswer (List Row))
  | submit (i : Nat) (token : String) (r : Runner) (createErr : Option String)
    (out : Except UploadAnswer Batch)
  | drop (i : Nat) (token : String) (out : UploadAnswer)

namespace Uploads

/-- The server after its start. -/
def init (clock : Int) : Uploads where
  items := []
  clock := clock
  issued := []
  confirms _ := none

/-- One step. -/
def Step (lower : String → String) (s : Uploads) (event : UploadEvent) (s' : Uploads) : Prop :=
  match event with
  | .tick now => s.clock ≤ now ∧ s' = { s with clock := now }
  | .stage token u => token ∉ s.issued ∧ u.created ≤ s.clock ∧
      ∃ items, (s.items.evict s.clock).MakesRoom items ∧
        s' = { s with items := (token, u) :: items, issued := token :: s.issued }
  | .confirm i jobs form => s.confirms i = none ∧ s' =
      match confirmForm jobs form with
      | .error _ => s
      | .ok form => { s with confirms := Function.update s.confirms i (some (.looking form)) }
  -- `get`, and everything up to `Submit`, which works on what `get` has returned
  | .lookup i token out => ∃ form, s.confirms i = some (.looking form) ∧ token = form.token ∧
      let items := s.items.evict s.clock
      let found := confirmLookup items form
      out = found.map (·.2) ∧ s' =
        { s with
          items := items
          confirms := Function.update s.confirms i
            (found.toOption.map fun (u, rows) => .submitting token u rows) }
  -- the token stays in the cache if `Submit` fails, and also if it succeeds
  | .submit i token r createErr out => ∃ u rows, s.confirms i = some (.submitting token u rows) ∧
      let result := submitRows r lower createErr rows
      out = result.mapError (fun err => retry token u ("Could not submit the list: " ++ err)) ∧ s' =
        { s with
          confirms := Function.update s.confirms i
            (result.toOption.map fun _ => .dropping token) }
  | .drop i token out => s.confirms i = some (.dropping token) ∧ out = .jobCreated ∧ s' =
      { s with
        items := s.items.delete token
        confirms := Function.update s.confirms i none }

/-- The requests to a server, in any order. -/
abbrev Runs (lower : String → String) (s : Uploads) (events : List UploadEvent) (s' : Uploads) :
    Prop :=
  Run (Step lower) s events s'

end Uploads

end Web

end Rcptto.Native
