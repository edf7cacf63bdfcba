import Rcptto.ForStd.Csv
import Rcptto.Native.Uploads

/-!
# Reading uploaded lists

`internal/ingest/ingest.go`: a file is read into a sheet by one of two readers, which its extension
selects, and the columns with the addresses and the labels are guessed from the cells. Then the page
that previews an upload, of `internal/web/upload.go`.

Delimiter-separated text is read as `encoding/csv` does with `TrimLeadingSpace`. What `excelize`
makes of a file is given from outside, and so are the texts of the errors of the two libraries.
-/

namespace Rcptto.Native

namespace Ingest

/-! ## Records -/

/-- `MaxRows`. -/
def maxRows : Nat := 200000

/-- `MaxColumns`. -/
def maxColumns : Nat := 64

/-- `isBlank`. -/
def isBlank (record : List String) : Bool := record.all fun c => trimSpace c = ""

/-- `rowHasEmail`. -/
def rowHasEmail (row : List String) : Bool := row.any looksLikeEmail

/-- The errors of `Parse`: a type of file that is not supported, an error of one of the two readers,
    or `ErrNoRows`. -/
inductive ParseError where
  | unsupported (ext : String)
  | readingCSV (err : Csv.Error)
  | readingXLSX (err : String)
  | readingWorksheet (name err : String)
  | errNoRows
  deriving DecidableEq

/-- The text of an error, where `quote` is the verb `%q`, and `csvText` the text of an error of the
    reader, with its position in the file. -/
def ParseError.text (quote : String → String) (csvText : Csv.Error → String) : ParseError → String
  | unsupported ext =>
    "ingest: unsupported file type " ++ quote ext ++ "; upload a .csv or .xlsx"
  | readingCSV err => "ingest: reading CSV: " ++ csvText err
  | readingXLSX err => "ingest: reading XLSX: " ++ err
  | readingWorksheet name err => "ingest: reading worksheet " ++ quote name ++ ": " ++ err
  | errNoRows => "ingest: the file contains no data rows"

/-! ## Readers -/

/-- The loop of `parseCSV`: the records that are still to come, and the error that ends them, if it
    is not the end of the file. -/
def csvLoop (err : Option Csv.Error) (rows : List (List String)) :
    List (List String) → Except ParseError (List (List String))
  | [] =>
    -- the reader is asked only while there is room, so an error behind that is not seen
    if rows.length ≤ maxRows then
      match err with
      | none => .ok rows
      | some err => .error (.readingCSV err)
    else .ok rows
  | record :: records =>
    if rows.length ≤ maxRows then
      -- cut first, so that a record can become blank
      let record := record.take maxColumns
      if isBlank record then csvLoop err rows records
      else csvLoop err (rows ++ [record]) records
    else .ok rows

/-- The loop of `parseXLSX`. -/
def xlsxLoop (rows : List (List String)) : List (List String) → List (List String)
  | [] => rows
  | record :: raw =>
    if rows.length ≥ maxRows then rows
    else
      let record := record.take maxColumns
      if isBlank record then xlsxLoop rows raw
      else xlsxLoop (rows ++ [record]) raw

/-- `newSheet`. -/
def newSheet (rows : List (List String)) : Except ParseError Sheet :=
  match rows with
  | [] => .error .errNoRows
  | first :: rest =>
    let s : Sheet :=
      -- a first row without an address is the header
      if !rowHasEmail first then { header := first, rows := rest }
      else { header := [], rows := first :: rest }
    if s.rows.length = 0 then .error .errNoRows else .ok s

/-- `parseCSV`, of the records that the reader returns and the error that ends them. -/
def parseCSV (read : List (List String) × Option Csv.Error) : Except ParseError Sheet :=
  match csvLoop read.2 [] read.1 with
  | .error err => .error err
  | .ok rows => newSheet rows

/-- The worksheets of a workbook with what `GetRows` returns for them, if it can be opened. -/
abbrev Workbook := Except String (List (String × Except String (List (List String))))

/-- `parseXLSX`. -/
def parseXLSX (workbook : Workbook) : Except ParseError Sheet :=
  match workbook with
  | .error err => .error (.readingXLSX err)
  | .ok [] => .error .errNoRows
  | .ok ((_, .ok raw) :: _) => newSheet (xlsxLoop [] raw)
  | .ok ((name, .error err) :: _) => .error (.readingWorksheet name err)

/-- `filepath.Ext`. -/
def ext (path : String) : String :=
  let base := path.toList.rtakeWhile (· ≠ '/')
  if '.' ∈ base then .ofList ('.' :: base.rtakeWhile (· ≠ '.')) else ""

/-- The contents of a file, as each of the two readers sees them. -/
structure Contents where
  text : String
  workbook : Workbook

/-- The records of a text, as `encoding/csv` reads them by default. -/
def readCSV (text : String) : List (List String) × Option Csv.Error :=
  let read := Csv.read ',' isSpace text.toList
  (read.1.map fun record => record.map String.ofList, read.2)

/-- `Parse`. -/
def parse (filename : String) (contents : Contents) : Except ParseError Sheet :=
  -- all three have the comma as their delimiter
  if toLower (ext filename) ∈ [".csv", ".txt", ".tsv"] then parseCSV (readCSV contents.text)
  else if toLower (ext filename) ∈ [".xlsx", ".xlsm"] then parseXLSX contents.workbook
  else .error (.unsupported (ext filename))

/-! ## Columns -/

/-- `headerLooksLikeName`. -/
def headerLooksLikeName (h : String) : Bool :=
  ["name", "client", "company", "contact", "customer", "organization"].any fun kw =>
    contains (toLower (trimSpace h)) kw

end Ingest

namespace Sheet

open Ingest

/-- `width`. -/
def width (s : Sheet) : Nat :=
  min (s.rows.foldl (fun w row => if row.length > w then row.length else w) s.header.length)
    maxColumns

/-- The loop of `DetectColumns` that counts the cells of a column that look like addresses. -/
def hits (s : Sheet) (c : Nat) : Nat := s.rows.countP fun row => row[c]?.any looksLikeEmail

/-- The first loop of `DetectColumns`: the best number so far and its column. -/
def emailLoop (s : Sheet) (width : Nat) : Nat × Int :=
  (List.range width).foldl (fun best c => if s.hits c > best.1 then (s.hits c, (c : Int)) else best)
    (0, -1)

/-- The second loop of `DetectColumns`. -/
def titledColumn (s : Sheet) (width : Nat) (emailCol : Int) : Option Nat :=
  (s.header.zipIdx.find? fun (h, c) =>
    !(decide ((c : Int) = emailCol) || decide (c ≥ width)) && headerLooksLikeName h).map Prod.snd

/-- The third loop of `DetectColumns`. -/
def filledColumn (s : Sheet) (width : Nat) (emailCol : Int) : Option Nat :=
  (List.range width).find? fun c =>
    decide ((c : Int) ≠ emailCol) &&
      s.rows.any fun row => row[c]?.any fun cell => trimSpace cell ≠ ""

/-- `DetectColumns`. -/
def detectColumns (s : Sheet) : Int × Int :=
  let width := s.width
  if width = 0 then (-1, -1)
  else
    let emailCol := (s.emailLoop width).2
    if emailCol = -1 then (-1, -1)
    else
      -- a title that looks like a name comes before any column with text
      match s.titledColumn width emailCol with
      | some c => (emailCol, c)
      | none =>
        match s.filledColumn width emailCol with
        | some c => (emailCol, c)
        | none => (emailCol, -1)

end Sheet

/-! ## Previews -/

namespace Web

open Ingest

/-- `handleUploadPreview`, for a server with or without jobs: the form cannot be read, or has no
    file, or has one, and `put` finds a token or does not. The answer, and what `put` has staged. -/
def handleUploadPreview (quote : String → String) (csvText : Csv.Error → String) (jobs : Bool)
    (form : Except String (Option (String × Contents))) (token : Option String) (now : Int) :
    UploadAnswer × Option (String × PendingUpload) :=
  if !jobs then (.notImplemented "bulk jobs are not enabled on this server", none)
  else
    match form with
    | .error err => (.verdictError ("could not read the upload: " ++ err), none)
    | .ok none => (.verdictError "choose a .csv or .xlsx file to upload", none)
    | .ok (some (filename, contents)) =>
      match parse filename contents with
      | .error err => (.verdictError (err.text quote csvText), none)
      | .ok sheet =>
        match token with
        | none => (.verdictError "could not stage the upload", none)
        | some token =>
          let u : PendingUpload := { filename := filename, sheet := sheet, created := now }
          let (emailCol, labelCol) := sheet.detectColumns
          (.uploadPreview (buildPreview token u emailCol labelCol), some (token, u))

end Web

end Rcptto.Native
