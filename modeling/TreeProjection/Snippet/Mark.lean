import TreeProjection.Snippet.Source
import TreeProjection.Text.Span
import TreeProjection.Text.Visible

/-! # Marks on the lines of a source

A `Mark` points at a span of a source.  Inside a line it is an underline.  Over several lines it is a
bracket: it opens at its first line, runs down beside the code, and closes at its last line.  Brackets
that meet stand side by side, each at a depth of its own.

* `LineMark` — what a mark asks of one line.
* `Bracket.spread` — the marks of a bracket on its lines.
* `MarkedLine.ofMarks` — the lines that have marks, with them. -/

namespace TreeProjection.Snippet

/-- A span that a snippet points at. -/
structure Mark where
  /-- The span. -/
  span : Span
  /-- What is said about it. -/
  label : Option String := none
  /-- Whether it is what the snippet is about. -/
  primary : Bool := false
  deriving DecidableEq, Repr, Inhabited

/-- What a mark is on a line. -/
inductive Shape where
  /-- An underline. -/
  | underline
  /-- The first line of a bracket. -/
  | opening (depth : Nat)
  /-- A line inside a bracket. -/
  | passing (depth : Nat)
  /-- The last line of a bracket. -/
  | closing (depth : Nat)
  deriving DecidableEq, Repr, Inhabited

/-- What a mark asks of a line. -/
structure LineMark where
  /-- Where it starts. -/
  start : Column := {}
  /-- Where it stops. -/
  stop : Column := {}
  /-- Whether it is what the snippet is about. -/
  primary : Bool
  /-- What is said about it. -/
  label : Option String := none
  /-- What it is. -/
  shape : Shape
  deriving DecidableEq, Repr, Inhabited

namespace LineMark

/-- What is said about it, or nothing. -/
def text (m : LineMark) : String := m.label.getD ""

/-- Whether something is said about it. -/
def hasText (m : LineMark) : Bool := !m.text.isEmpty

/-- The depth of a bracket that opens or closes. -/
def corner? (m : LineMark) : Option Nat :=
  match m.shape with
  | .opening depth => some depth
  | .closing depth => some depth
  | _ => none

/-- Whether a bracket opens or closes, which takes a row of its own. -/
def takesRow (m : LineMark) : Bool := m.corner?.isSome

/-- Whether a bracket opens. -/
def isOpening (m : LineMark) : Bool :=
  match m.shape with
  | .opening _ => true
  | _ => false

/-- The number of terminal columns that it covers. -/
def length (m : LineMark) : Nat :=
  (m.stop.cell - m.start.cell) + (m.start.cell - m.stop.cell)

/-- Whether two stretches share a column. -/
def rangesMeet (start stop start' stop' : Nat) : Bool :=
  (start' ≤ start && start < stop') || (start ≤ start' && start' < stop)

/-- Whether two marks share a column once the first is made longer. -/
def meets (padding : Nat) (m n : LineMark) : Bool :=
  rangesMeet m.start.cell (m.stop.cell + padding) n.start.cell n.stop.cell

end LineMark

/-- A mark over several lines. -/
structure Bracket where
  /-- How far it stands from the left. -/
  depth : Nat := 1
  /-- Where it opens. -/
  start : Place
  /-- Where it closes. -/
  stop : Place
  /-- Whether it is what the snippet is about. -/
  primary : Bool
  /-- What is said about it. -/
  label : Option String
  /-- Whether another bracket has the same ends. -/
  doubled : Bool := false
  deriving DecidableEq, Repr, Inhabited

namespace Bracket

/-- Whether two brackets have the same ends. -/
def sameEnds (b c : Bracket) : Bool := b.start == c.start && b.stop == c.stop

/-- Whether two brackets share a line. -/
def meets (b c : Bracket) : Bool :=
  LineMark.rangesMeet b.start.line (b.stop.line + 1) c.start.line (c.stop.line + 1)

/-- Move brackets aside for `b`, which comes after the first `before` of them, up to the first that does
not touch it or is `b` itself.  Where that one has the ends of a bracket the snippet is about, it becomes
one too. -/
def makeRoom (primaries : List Bracket) (b : Bracket) : (before : Nat) → List Bracket → List Bracket
  | _, [] => []
  | before, c :: rest =>
    if !b.sameEnds c && b.meets c
    then { c with depth := c.depth + 1 } :: makeRoom primaries b (before - 1) rest
    else if b.sameEnds c && 0 < before
    then { c with doubled := true } :: makeRoom primaries b (before - 1) rest
    else { c with primary := c.primary || primaries.any c.sameEnds } :: rest

/-- Make room for each of several brackets in turn, the first of which comes after `before` others. -/
def settle (primaries : List Bracket) (before : Nat) :
    (turns brackets : List Bracket) → List Bracket
  | [], brackets => brackets
  | b :: turns, brackets =>
    let primaries := if b.primary then b :: primaries else primaries
    settle primaries (before + 1) turns (makeRoom primaries b before brackets)

/-- Whether a bracket comes before another: it opens on an earlier line, or closes on a later one. -/
def precedes (b c : Bracket) : Bool :=
  b.start.line < c.start.line || (b.start.line == c.start.line && c.stop.line ≤ b.stop.line)

/-- Give each bracket its depth: the outermost comes first. -/
def arrange (brackets : List Bracket) : List Bracket :=
  let sorted := brackets.mergeSort precedes
  let settled := settle [] 0 sorted sorted
  let deepest := (settled.map depth).foldl max 0
  settled.map fun b => { b with depth := deepest - b.depth + 1 }

/-- Whether a line is worth showing inside a bracket: it is not blank, nor a bare delimiter, nor a
comment that is not documentation. -/
def worthShowing (line : List Char) : Bool :=
  let text := Text.trim line
  let comment := ['/', '/'].isPrefixOf text &&
    !(['/', '/', '/'].isPrefixOf text || ['/', '/', '!'].isPrefixOf text)
  !comment && !([[], ['\x7b'], ['\x7d'], ['('], [')'], ['['], [']']].contains text)

/-- The mark on the first line. -/
def opening (b : Bracket) : LineMark :=
  let start := b.start.column
  { start, stop := ⟨start.char + 1, start.cell + 1⟩, primary := b.primary, shape := .opening b.depth }

/-- The mark on a line in between. -/
def passing (b : Bracket) : LineMark := { primary := b.primary, shape := .passing b.depth }

/-- The mark on the last line. -/
def closing (b : Bracket) : LineMark :=
  let stop := b.stop.column
  { start := ⟨stop.char - 1, stop.cell - 1⟩, stop, primary := b.primary, label := b.label
    shape := if b.doubled then .underline else .closing b.depth }

/-- The number of the line after the last one worth showing among `count` lines from a first one, or the
first one if there is none. -/
def shownUntil (lines : List SourceLine) (first : Nat) : (count : Nat) → Nat
  | 0 => first
  | count + 1 =>
    if worthShowing (SourceLine.charsOf lines (first + count)) then first + count + 1
    else shownUntil lines first count

/-- The numbers of the lines inside a bracket that are shown: up to four from its start, and the one
before its end. -/
def inner (lines : List SourceLine) (b : Bracket) : List Nat :=
  let first := b.start.line
  let middle := min (first + 4) b.stop.line
  let until' := shownUntil lines first (middle - first)
  let head := (List.range (until' - (first + 1))).map (· + (first + 1))
  let beforeLast := b.stop.line - 1
  if middle < beforeLast && worthShowing (SourceLine.charsOf lines beforeLast)
  then head ++ [beforeLast] else head

/-- The marks of a bracket, by the numbers of their lines. -/
def spread (lines : List SourceLine) (b : Bracket) : List (Nat × LineMark) :=
  let last := (b.stop.line, b.closing)
  if b.doubled then [last]
  else (b.start.line, b.opening) :: (b.inner lines).map (·, b.passing) ++ [last]

end Bracket

/-- What is drawn for a mark: an underline with the number of its line, or a bracket. -/
def Mark.place (lines : List SourceLine) (m : Mark) : (Nat × LineMark) ⊕ Bracket :=
  let (start, stop) := Place.ofSpan lines m.span.start m.span.stop
  if start.line = stop.line then
    let stop' := if start.column.cell = stop.column.cell
      then { stop.column with cell := stop.column.cell + 1 } else stop.column
    .inl (start.line, ⟨start.column, stop', m.primary, m.label, .underline⟩)
  else .inr { start, stop, primary := m.primary, label := m.label }

/-- A line of a source with the marks on it. -/
structure MarkedLine where
  /-- The line. -/
  line : SourceLine
  /-- Its marks, underlines first. -/
  marks : List LineMark
  deriving Repr, Inhabited

/-- The lines that have marks, and the depth of the innermost bracket. -/
def MarkedLine.ofMarks (lines : List SourceLine) (marks : List Mark) : List MarkedLine × Nat :=
  let placed := marks.map (Mark.place lines)
  let brackets := Bracket.arrange (placed.filterMap Sum.getRight?)
  let all := placed.filterMap Sum.getLeft? ++ brackets.flatMap (Bracket.spread lines)
  let onLine (l : SourceLine) : MarkedLine :=
    ⟨l, (all.filter (·.1 == l.number)).map Prod.snd⟩
  ((lines.map onLine).filter (!·.marks.isEmpty), (brackets.map Bracket.depth).foldl max 0)

end TreeProjection.Snippet
