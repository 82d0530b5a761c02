import TreeProjection.Host.Tree
import TreeProjection.Text.Lines

/-! # Diagnostics

What a reader is told of the error elements of a tree.  An error element may hold several messages, one
to a line, and each becomes a `Diagnostic`.  A failed rule and the token it failed at carry the same
message; the repetition inside an earlier diagnostic is left out.

* `Diagnostic.ofTree` — the diagnostics of a tree.
* `Diagnostic.lineGroups` — neighbouring diagnostics that start on one line. -/

namespace TreeProjection

/-- A message for a stretch of the source. -/
structure Diagnostic where
  /-- The stretch. -/
  span : Span
  /-- The message. -/
  message : String
  deriving DecidableEq, Repr, Inhabited

namespace Diagnostic

/-- A diagnostic on one line. -/
def display (d : Diagnostic) : String :=
  s!"error at {d.span.start}..{d.span.stop}: {d.message}"

/-- Diagnostics without a source, one to a line. -/
def displayAll (ds : List Diagnostic) : String := Text.joinLines (ds.map display)

/-- Whether a message for a span repeats a diagnostic around it. -/
def repeats (ds : List Diagnostic) (span : Span) (message : String) : Bool :=
  ds.any fun d => d.message == message && d.span.covers span

/-- Add a message, unless it repeats a diagnostic around it. -/
def addLine (span : Span) (ds : List Diagnostic) (message : String) : List Diagnostic :=
  if repeats ds span message then ds else ds ++ [⟨span, message⟩]

/-- Add the messages of an error element. -/
def addElement (ds : List Diagnostic) (e : ErrorElement) : List Diagnostic :=
  (Text.lines e.message).foldl (addLine e.span) ds

/-- The diagnostics of a list of error elements. -/
def ofElements (errors : List ErrorElement) : List Diagnostic := errors.foldl addElement []

/-- The diagnostics of a tree. -/
def ofTree (t : HostTree) : List Diagnostic := ofElements t.errors

/-- How many line feeds come before an offset. -/
def lineOf (source : ByteArray) (offset : Nat) : Nat :=
  ((source.extract 0 offset).toList.filter (· == 10)).length

/-- Runs of diagnostics that start on the same line. -/
def lineGroups (source : ByteArray) : List Diagnostic → List (List Diagnostic)
  | [] => []
  | d :: rest =>
    match lineGroups source rest with
    | (e :: group) :: groups =>
      if lineOf source d.span.start = lineOf source e.span.start then (d :: e :: group) :: groups
      else [d] :: (e :: group) :: groups
    | groups => [d] :: groups

/-- The stretch that is marked for a span: an empty one is widened by a byte, so that there is something
to point at, but not past the end of the source. -/
def markedSpan (sourceLength : Nat) (s : Span) : Span :=
  if s.isEmpty then .between s.start (min (s.start + 1) sourceLength) else s

end Diagnostic

end TreeProjection
