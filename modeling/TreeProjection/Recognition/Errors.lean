import TreeProjection.Recognition.Journal
import TreeProjection.Text.Lines

/-! # Collected syntax errors

The errors of one parse, as its listener collects them.  An exception counts once, whatever else is
reported of it.  An error for which no alternative fitted is placed where the alternatives begin: the
recognizer may have looked far ahead before it gave up, but that is where the tree shows the error.

* `ErrorCollector.hear` — take in a report.
* `ErrorIndex` — the errors by exception and by offset. -/

namespace TreeProjection

/-- A syntax error. -/
structure SyntaxError where
  /-- The token that the error is placed at. -/
  offending : Token
  /-- The line of the error. -/
  line : Nat
  /-- The column of the error. -/
  column : Nat
  /-- The text. -/
  message : String
  /-- The number of the exception behind the error, if there is one. -/
  exception : Option Nat
  deriving DecidableEq, Repr, Inhabited

/-- The offset of an error; a token without a place counts as one at the start. -/
def SyntaxError.offset (e : SyntaxError) : Nat := e.offending.start?.getD 0

/-- The error that a report tells of. -/
def SyntaxError.ofReport (r : Report) : SyntaxError :=
  let exception := r.exception.map RecognitionException.id
  match r.exception.map RecognitionException.kind with
  | some (.noViableAlt start) => ⟨start, start.line, start.column, r.message, exception⟩
  | _ => ⟨r.offending, r.line, r.column, r.message, exception⟩

/-- The errors collected so far. -/
structure ErrorCollector where
  /-- The errors in the order of their reports. -/
  errors : Array SyntaxError := #[]
  /-- For each exception reported so far, the place of its error. -/
  byException : List (Nat × Nat) := []
  deriving DecidableEq, Repr, Inhabited

namespace ErrorCollector

/-- Take in a report, unless its exception has been reported before. -/
def hear (c : ErrorCollector) (r : Report) : ErrorCollector :=
  match r.exception with
  | some e =>
    if (c.byException.lookup e.id).isSome then c
    else { errors := c.errors.push (.ofReport r)
           byException := (e.id, c.errors.size) :: c.byException }
  | none => { c with errors := c.errors.push (.ofReport r) }

/-- The errors of a list of reports. -/
def ofReports (reports : List Report) : ErrorCollector := reports.foldl hear {}

end ErrorCollector

/-- The errors of a finished parse, by exception and by offset. -/
structure ErrorIndex where
  /-- The errors in the order of their reports. -/
  errors : Array SyntaxError := #[]
  /-- For each exception, the place of its error. -/
  byException : List (Nat × Nat) := []
  /-- For each offset with errors, the places of its errors, the last one first. -/
  byOffset : List (Nat × List Nat) := []
  deriving DecidableEq, Repr, Inhabited

namespace ErrorIndex

/-- Enter a place under an offset. -/
def enter (offset place : Nat) : List (Nat × List Nat) → List (Nat × List Nat)
  | [] => [(offset, [place])]
  | (o, places) :: rest =>
    if o = offset then (o, place :: places) :: rest else (o, places) :: enter offset place rest

/-- The index of a collector's errors. -/
def ofCollector (c : ErrorCollector) : ErrorIndex where
  errors := c.errors
  byException := c.byException
  byOffset := c.errors.toList.zipIdx.foldl (fun acc e => enter e.1.offset e.2 acc) []

/-- The index of the errors of a list of reports. -/
def ofReports (reports : List Report) : ErrorIndex := ofCollector (.ofReports reports)

/-- The number of errors. -/
def size (x : ErrorIndex) : Nat := x.errors.size

/-- The error of an exception. -/
def forException? (x : ErrorIndex) (id : Nat) : Option SyntaxError :=
  (x.byException.lookup id).bind fun place => x.errors[place]?

/-- The errors at an offset, in the order of their reports. -/
def allAt (x : ErrorIndex) (offset : Nat) : List SyntaxError :=
  ((x.byOffset.lookup offset).getD []).reverse.filterMap fun place => x.errors[place]?

/-- The first error at an offset. -/
def firstAt? (x : ErrorIndex) (offset : Nat) : Option SyntaxError := (x.allAt offset).head?

/-- The texts of the errors at an offset, one to a line, if there are errors. -/
def messagesAt? (x : ErrorIndex) (offset : Nat) : Option String :=
  match x.allAt offset with
  | [] => none
  | errors => some (Text.joinLines (errors.map SyntaxError.message))

end ErrorIndex

end TreeProjection
